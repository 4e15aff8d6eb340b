import Ghostframe.X11.SlotAge

/-!
# A banded grab is indistinguishable from a full one

The capture together with its display: the root window is painted at any time, also while a
capture is under way; a tick drains the damage, plans, and captures; frames in flight come
back in any order.

* `Truthful`: a drain that is believed names the tile of every pixel that changed since the
  drain before, and the serial of a pointer image names the image;
* `Exact`: a frame with pixels is the root with the pointer over it, at every pixel that did
  not change after the drain; a tick without pixels stands for the picture sent last;
* `capture_exact`: in every truthful run every tick is exact.
-/

namespace Ghostframe.X11

open CursorRect FramePool List Option TileBitmap X11Frames

open TileBitmap (tileOf)

/-- One capture tick: the pointer and the damage at the drain, the plan, the answers of the X
server during the capture, and the root image after it. -/
structure Tick where
  cursor : Option CursorReply
  drained : Damage
  slice : Option Slice
  trusted : Bool
  answers : Answers
  after : Picture

/-- The capture, the frames in flight, the root image and the pixels of it that changed since
the last drain. `drawn` and `sent` are what the consumer was shown last: the pointer, and the
picture with its size. -/
structure Display where
  frames : X11Frames
  inFlight : List Segment
  root : Picture
  changed : Set (ℕ × ℕ)
  drawn : Option CursorReply
  sent : Option ((ℕ × ℕ) × Picture)

/-- What happens to the display or the capture. -/
inductive Op
  | paint (root : Picture)
  | tick (t : Tick)
  | giveBack (i : ℕ)
  | frameDropped
  | setAllowUnchanged (on : Bool)

/-- Pixels that change while the tick's capture is under way. -/
def Tick.volatile (t : Tick) (root : Picture) : Set (ℕ × ℕ) :=
  {p | ∃ i, t.answers.seen i p ≠ root p}

namespace Sent

/-- The segment that leaves with the frame. -/
def storage : Sent → List Segment
  | .pixels _ _ _ storage _ => storage.toList
  | _ => []

/-- The pointer the consumer sees, if it saw `old` before and the tick had `cursor`. -/
def drawn (out : Sent) (old cursor : Option CursorReply) : Option CursorReply :=
  match out with
  | .pixels .. => cursor
  | _ => old

/-- The picture the consumer sees. -/
def shown (out : Sent) (old : Option ((ℕ × ℕ) × Picture)) : Option ((ℕ × ℕ) × Picture) :=
  match out with
  | .pixels width height picture _ _ => some ((width, height), picture)
  | _ => old

end Sent

namespace Display

variable (s : Display)

/-- `damage_net_grab`, acting on the plan: drain, plan, grab. -/
def grabbed (t : Tick) : X11Frames × Sent :=
  let d := s.frames.drainDamage t.cursor t.drained
  (d.1.planGrab d.2 t.slice t.trusted).capture t.answers

/-- A tick. -/
def tick (t : Tick) : Display where
  frames := (s.grabbed t).1
  inFlight := s.inFlight ++ (s.grabbed t).2.storage
  root := t.after
  changed := t.volatile s.root ∪ {p | t.after p ≠ s.root p}
  drawn := (s.grabbed t).2.drawn s.drawn t.cursor
  sent := (s.grabbed t).2.shown s.sent

/-- One step of a run. -/
def step (op : Op) : Display :=
  match op with
  | .paint root => { s with root, changed := s.changed ∪ {p | root p ≠ s.root p} }
  | .tick t => s.tick t
  | .giveBack i =>
    { s with
      frames := { s.frames with
        pool := (s.inFlight[i]?).elim s.frames.pool fun seg => s.frames.pool.giveBack (some seg) }
      inFlight := s.inFlight.eraseIdx i }
  | .frameDropped => { s with frames := s.frames.frameDropped }
  | .setAllowUnchanged on => { s with frames := s.frames.setAllowUnchanged on }

/-- A display just connected to. -/
def start (width height : UInt16) (shmUsable : Bool) (attach : Option AttachError)
    (root : Picture) : Display :=
  ⟨.connect width height shmUsable attach, [], root, ∅, none, none⟩

/-- Does the screen hold this pixel? -/
def OnScreen (f : X11Frames) (p : ℕ × ℕ) : Prop := p.1 < f.w ∧ p.2 < f.h

/-- A drain for this screen's size names the tile of every pixel that changed. -/
def Names (drained : Damage) : Prop :=
  match drained with
  | .unknown => True
  | .none => ∀ p ∈ s.changed, ¬ OnScreen s.frames p
  | .tiles b =>
    b.px = (s.frames.w, s.frames.h) → ∀ p ∈ s.changed, OnScreen s.frames p → tileOf p ∈ b.tiles

/-- Ticks drain truthfully, and `artwork` has the image of every serial. -/
def Truthful (artwork : UInt32 → List UInt32) (s : Display) (op : Op) : Prop :=
  match op with
  | .tick t =>
    s.Names t.drained ∧ ∀ c ∈ t.cursor, c.cursorImage = artwork c.cursorSerial
  | _ => True

/-- The outcome of a tick is that of a full grab of `root` with the pointer: the frame has
those pixels, or the picture sent last has them. -/
def ExactFor (root : Picture) (volatile : Set (ℕ × ℕ)) (cursor : Option CursorReply)
    (sent : Option ((ℕ × ℕ) × Picture)) (out : Sent) : Prop :=
  match out with
  | .failed => True
  | .pixels width height picture _ _ =>
    ∀ p : ℕ × ℕ, p.1 < width → p.2 < height → p ∉ volatile →
      Composited cursor p (root p) (picture p)
  | .unchanged width height =>
    ∃ picture, sent = some ((width, height), picture) ∧
      ∀ p : ℕ × ℕ, p.1 < width → p.2 < height → p ∉ volatile →
        Composited cursor p (root p) (picture p)

/-- What a tick hands out is what a full grab would have. -/
def Exact (t : Tick) : Prop :=
  ExactFor s.root (t.volatile s.root) t.cursor s.sent (s.grabbed t).2

/-! ### The plan names whatever changed -/

variable {artwork : UInt32 → List UInt32} {s : Display} {t : Tick} {f : X11Frames}
  {log : ChangeLog (ℕ × ℕ)} {cursor drawn : Option CursorReply} {f' : X11Frames}
  {old : ChangeLog (ℕ × ℕ)}

/-- Two pointer replies that look the same to `poll_cursor` blend the same. -/
theorem withCursor_eq_of_unchanged (hdrawn : ∀ d ∈ drawn, d.cursorImage = artwork d.cursorSerial)
    (hcursor : ∀ c ∈ cursor, c.cursorImage = artwork c.cursorSerial)
    (hrect : cursor.map of = drawn.map of)
    (hserial : cursor.map CursorReply.cursorSerial = drawn.map CursorReply.cursorSerial)
    (width height : ℕ) (root : Picture) :
    withCursor drawn width height root = withCursor cursor width height root := by
  cases drawn with
  | none =>
    cases cursor with
    | none => rfl
    | some c => cases hrect
  | some d =>
    cases cursor with
    | none => cases hrect
    | some c =>
      have hof : of c = of d := some.inj hrect
      have himage : c.cursorImage = d.cursorImage := by
        rw [hcursor c rfl, hdrawn d rfl, some.inj hserial]
      funext p
      simp only [withCursor, blitCursor, hof, himage]

/-- Outside the tiles of a pointer change both pointers blend the same. -/
theorem pollCursor_names (hdrawn : ∀ d ∈ drawn, d.cursorImage = artwork d.cursorSerial)
    (hcursor : ∀ c ∈ cursor, c.cursorImage = artwork c.cursorSerial)
    (hlast : f.lastCursor = drawn.map .of)
    (hserial : f.lastCursorSerial = drawn.map CursorReply.cursorSerial) {p : ℕ × ℕ}
    (hp : OnScreen f p) (htile : tileOf p ∉ (f.pollCursor cursor).2) (root : Picture) :
    withCursor drawn f.w f.h root p = withCursor cursor f.w f.h root p := by
  unfold pollCursor at htile
  dsimp only at htile
  split_ifs at htile with hsame
  · rw [hlast, hserial] at hsame
    rw [withCursor_eq_of_unchanged hdrawn hcursor hsame.1 hsame.2]
  · rw [hlast] at htile
    have hout : ∀ c, c ∈ drawn ∨ c ∈ cursor → ¬ (of c).Holds p := fun c hc hholds =>
      htile (cursorDirtyTiles_covers ⟨f.w_lt, f.h_lt⟩ hp hc hholds)
    rw [withCursor_of_not_under, withCursor_of_not_under]
    · rintro ⟨c, hc, hholds⟩
      exact hout c (.inr hc) hholds
    · rintro ⟨c, hc, hholds⟩
      exact hout c (.inl hc) hholds

/-- Damage that says which tiles are dirty, for this screen. -/
def DirtyIn (f : X11Frames) (damage : Damage) (p : ℕ × ℕ) : Prop :=
  match damage with
  | .unknown => True
  | .none => False
  | .tiles b => b.px = (f.w, f.h) → tileOf p ∈ b.tiles

/-- Merging keeps the dirty tiles and adds the pointer's. -/
theorem dirtyIn_mergeCursorDamage {drained : Damage} {cursor : List (ℕ × ℕ)} {p : ℕ × ℕ}
    (hp : OnScreen f p) (h : DirtyIn f drained p ∨ tileOf p ∈ cursor) :
    DirtyIn f (mergeCursorDamage drained cursor (f.w, f.h)) p := by
  have hgrid : (tileOf p).1 < Capture.tilesAlong f.w ∧ (tileOf p).2 < Capture.tilesAlong f.h :=
    ⟨div_tileSize_lt hp.1, div_tileSize_lt hp.2⟩
  cases drained with
  | unknown => exact trivial
  | none =>
    have hmem : tileOf p ∈ cursor := h.resolve_left id
    have hne : cursor.isEmpty = false := by
      cases cursor with
      | nil => exact absurd hmem not_mem_nil
      | cons _ _ => rfl
    simp only [mergeCursorDamage, hne, Bool.false_eq_true, if_false]
    exact fun _ => (get_setTiles _ _ _ _).2 (.inr ⟨hmem, hgrid⟩)
  | tiles b =>
    intro hpx
    rw [setTiles_px] at hpx
    refine (get_setTiles _ _ _ _).2 ?_
    rcases h with hdirty | hmem
    · exact .inl (hdirty hpx)
    · refine .inr ⟨hmem, ?_⟩
      rw [tilesW, tilesH, hpx]
      exact hgrid

/-- A plan that is believed was made with no other pending, and its mask holds the damage. -/
theorem planGrab_cases (f : X11Frames) (damage : Damage) (slice : Option Slice) (trusted : Bool) :
    ∃ planMask known, f.planGrab damage slice trusted =
        { f with planMask, plan := some ⟨known, slice⟩ } ∧
      (known = true → f.plan = none ∧ planMask.px = (f.w, f.h) ∧
        ∀ p, DirtyIn f damage p → tileOf p ∈ planMask.tiles) := by
  unfold planGrab
  have hpx :
      (if f.planMask.matchesPx f.w f.h then f.planMask else .new f.w f.h).px = (f.w, f.h) := by
    split_ifs with h
    · exact matchesPx_iff.1 h
    · rfl
  generalize (if f.planMask.matchesPx f.w f.h then f.planMask else .new f.w f.h) = mask at hpx
  split_ifs with htrust
  swap
  · exact ⟨mask, false, rfl, fun h => by cases h⟩
  rw [Bool.and_eq_true, isNone_iff_eq_none] at htrust
  cases damage with
  | unknown => exact ⟨mask, false, rfl, fun h => by cases h⟩
  | none => exact ⟨mask.clear, true, rfl, fun _ => ⟨htrust.2, hpx, fun _ h => h.elim⟩⟩
  | tiles b =>
    dsimp only
    split_ifs with hb
    · rw [matchesPx_iff] at hb
      exact ⟨b, true, rfl, fun _ => ⟨htrust.2, hb, fun _ h => h hb⟩⟩
    · exact ⟨mask, false, rfl, fun h => by cases h⟩

/-! ### The books and what they promise -/

/-- What holds of the filed ticks and of every segment's age. -/
structure Books (f : X11Frames) (segs : List Segment) (log : ChangeLog (ℕ × ℕ)) : Prop where
  next : log.next = f.tick + 1
  current : log.current = ∅
  ring : f.RingHolds log
  held : ∀ seg ∈ segs, ∀ n ∈ seg.held, n ≤ f.tick

/-- What holds while no damage was lost: every segment is fresh, and the picture sent last is
the one on display. -/
structure Shown (f : X11Frames) (segs : List Segment) (log : ChangeLog (ℕ × ℕ)) (root : Picture)
    (changed : Set (ℕ × ℕ)) (drawn : Option CursorReply)
    (sent : Option ((ℕ × ℕ) × Picture)) : Prop where
  fresh : ∀ seg ∈ segs, f.Fresh log (withCursor drawn f.w f.h root) changed seg
  sent : f.lastSent = some (f.width, f.height) → ∃ picture, sent = some ((f.w, f.h), picture) ∧
    ∀ p, OnScreen f p → p ∉ changed → picture p = withCursor drawn f.w f.h root p

/-- The segments that can come back into use. -/
def segments (s : Display) : List Segment := s.frames.pool.free ++ s.inFlight

/-- The invariant of a run. -/
structure Kept (artwork : UInt32 → List UInt32) (s : Display) (log : ChangeLog (ℕ × ℕ)) :
    Prop where
  books : Books s.frames s.segments log
  lastCursor : s.frames.lastCursor = s.drawn.map .of
  lastSerial : s.frames.lastCursorSerial = s.drawn.map CursorReply.cursorSerial
  artwork : ∀ d ∈ s.drawn, d.cursorImage = artwork d.cursorSerial
  shown : s.frames.plan = none →
    Shown s.frames s.segments log s.root s.changed s.drawn s.sent

/-- What holds between the plan and the grab. -/
structure Ready (s : Display) (t : Tick) (log : ChangeLog (ℕ × ℕ)) (f : X11Frames) : Prop where
  books : Books f (f.pool.free ++ s.inFlight) log
  polled : f.polledCursor = some t.cursor
  lastCursor : f.lastCursor = s.frames.lastCursor
  lastSerial : f.lastCursorSerial = s.frames.lastCursorSerial
  planned : ∃ plan, f.plan = some plan ∧
    (plan.known = true → f.planMask.px = (f.w, f.h) →
      Shown f (f.pool.free ++ s.inFlight) log s.root s.changed s.drawn s.sent ∧
      ∀ p, OnScreen f p → tileOf p ∉ f.planMask.tiles →
        p ∉ s.changed ∧
          withCursor s.drawn f.w f.h s.root p = withCursor t.cursor f.w f.h s.root p)

theorem Kept.planned (h : s.Kept artwork log) (ht : s.Truthful artwork (.tick t)) :
    let f := (s.frames.drainDamage t.cursor t.drained).1.planGrab
      (s.frames.drainDamage t.cursor t.drained).2 t.slice t.trusted
    s.Ready t log f ∧ ∀ plan ∈ f.plan, plan.known = true → f.planMask.px = (f.w, f.h) := by
  obtain ⟨hnames, hcursor⟩ := ht
  obtain ⟨planMask, known, heq, hknown⟩ := planGrab_cases
    (s.frames.drainDamage t.cursor t.drained).1 (s.frames.drainDamage t.cursor t.drained).2
    t.slice t.trusted
  rw [heq]
  refine ⟨⟨⟨h.books.next, h.books.current, ?_, h.books.held⟩, rfl, rfl, rfl,
    ⟨_, rfl, fun hk _ => ?_⟩⟩, fun plan hplan hk => ?_⟩
  · exact ⟨h.books.ring.length, h.books.ring.entry, h.books.ring.union⟩
  · obtain ⟨hplan, -, hdirty⟩ := hknown hk
    obtain ⟨hfresh, hsent⟩ := h.shown hplan
    refine ⟨⟨hfresh, hsent⟩, fun p hp htile => ?_⟩
    have hclean : ¬ (DirtyIn s.frames t.drained p ∨
        tileOf p ∈ (s.frames.pollCursor t.cursor).2) := fun hmem =>
      htile (hdirty p (dirtyIn_mergeCursorDamage (f := s.frames) hp hmem))
    push Not at hclean
    refine ⟨fun hmem => hclean.1 ?_, ?_⟩
    · cases hdrained : t.drained with
      | unknown => exact trivial
      | none =>
        rw [hdrained] at hnames
        exact hnames p hmem hp
      | tiles b =>
        rw [hdrained] at hnames
        exact fun hpx => hnames hpx p hmem hp
    · exact pollCursor_names h.artwork hcursor h.lastCursor h.lastSerial hp hclean.2 s.root
  · obtain rfl := some.inj hplan
    exact (hknown hk).2.1

theorem not_held {seg : Segment} {n : ℕ} (h : seg.held = none) : n ∉ seg.held := by
  rw [h]
  exact not_mem_none n

/-- A segment in flight stays one of those that were. -/
theorem mem_or_flying (flying : List Segment) {free free' : List Segment} {P : Segment → Prop}
    (h : ∀ seg ∈ free', seg ∈ free ∨ P seg) :
    ∀ seg ∈ free' ++ flying, seg ∈ free ++ flying ∨ P seg := by
  intro seg hseg
  rcases mem_append.1 hseg with hseg | hseg
  · exact (h seg hseg).imp_left (mem_append_left _)
  · exact .inl (mem_append_right _ hseg)

/-- Slots come and go without harm. -/
theorem Ready.reslotted (h : s.Ready t log f) (hslots : f.Reslotted f' none) :
    s.Ready t log f' := by
  obtain ⟨pool, shmLen, shmUsable, shmRetryIn, rfl, hpool⟩ := hslots
  have hmem := mem_or_flying s.inFlight fun seg hseg =>
    (hpool seg hseg).imp_right (Or.resolve_left · (not_mem_none _))
  obtain ⟨plan, hplan, hknown⟩ := h.planned
  have hring : ({ f with pool, shmLen, shmUsable, shmRetryIn } : X11Frames).RingHolds log :=
    ⟨h.books.ring.length, h.books.ring.entry, h.books.ring.union⟩
  refine ⟨⟨h.books.next, h.books.current, hring, fun seg hseg n hn => ?_⟩, h.polled,
    h.lastCursor, h.lastSerial, plan, hplan, fun hk hpx => ?_⟩
  · rcases hmem seg hseg with hold | hnone
    · exact h.books.held seg hold n hn
    · exact absurd hn (not_held hnone)
  · obtain ⟨hshown, hnames⟩ := hknown hk hpx
    refine ⟨⟨fun seg hseg n hn => ?_, hshown.sent⟩, hnames⟩
    rcases hmem seg hseg with hold | hnone
    · exact hshown.fresh seg hold n hn
    · exact absurd hn (not_held hnone)

/-- A new size makes every slot's age unknown, and the plan is for another screen. -/
theorem Ready.resized (h : s.Ready t log f) {width height : UInt16}
    (hne : (width, height) ≠ (f.width, f.height))
    (hpx : ∀ plan ∈ f.plan, plan.known = true → f.planMask.px = (f.w, f.h)) :
    s.Ready t log { f with width, height, ring := [], ageFloor := f.tick + 1 } := by
  obtain ⟨plan, hplan, -⟩ := h.planned
  refine ⟨⟨h.books.next, h.books.current, ⟨.inl rfl, ?_, ?_⟩, h.books.held⟩, h.polled, h.lastCursor,
    h.lastSerial, plan, hplan, fun hk hmask => ?_⟩
  · exact fun e he => absurd he not_mem_nil
  · exact fun e he => absurd he not_mem_nil
  · have hsame := (hpx plan hplan hk).symm.trans hmask
    obtain ⟨hw, hh⟩ := Prod.mk.inj hsame
    refine absurd ?_ hne
    rw [UInt16.toNat_inj.1 hw, UInt16.toNat_inj.1 hh]

theorem Ready.refreshed (h : s.Ready t log f)
    (hpx : ∀ plan ∈ f.plan, plan.known = true → f.planMask.px = (f.w, f.h)) {a : Answers}
    (hrefresh : f.refreshGeometry a = some f') : s.Ready t log (f'.retryShm a) := by
  refine Ready.reslotted ?_ (f'.reslotted_retryShm a)
  obtain ⟨geom, -, rfl⟩ := map_eq_some_iff.1 hrefresh
  split
  · rename_i width height hneeded
    refine Ready.reslotted ?_ (reslotted_ensureSegment _ _)
    refine h.resized ?_ hpx
    unfold resizeNeeded at hneeded
    split_ifs at hneeded with hcond
    obtain rfl := some.inj hneeded
    exact fun heq => hcond (.inr (.inr heq))
  · exact h

/-! ### Bringing slots up to date -/

/-- A tick is filed and every segment is fresh for the picture it shows. -/
structure Filed (f : X11Frames) (segs : List Segment) (log : ChangeLog (ℕ × ℕ)) (view : Picture) :
    Prop where
  books : Books f segs log
  fresh : ∀ seg ∈ segs, f.Fresh log view ∅ seg

/-- A segment that holds this tick's picture. -/
def Holds (f : X11Frames) (view : Picture) (volatile : Set (ℕ × ℕ)) (seg : Segment) : Prop :=
  seg.held = some f.tick ∧ ∀ p, OnScreen f p → p ∉ volatile → seg.picture p = view p

theorem Filed.fresh_of {segs segs' : List Segment} {view : Picture} (h : Filed f segs log view)
    {volatile : Set (ℕ × ℕ)}
    (hsegs : ∀ seg ∈ segs', seg ∈ segs ∨ seg.held = none ∨ Holds f view volatile seg) :
    Books f segs' log ∧ ∀ seg ∈ segs', f.Fresh log view volatile seg := by
  refine ⟨⟨h.books.next, h.books.current, h.books.ring, fun seg hseg n hn => ?_⟩,
    fun seg hseg n hn hfloor p hx hy hp htile => ?_⟩
  · rcases hsegs seg hseg with hold | hnone | hholds
    · exact h.books.held seg hold n hn
    · exact absurd hn (not_held hnone)
    · rw [hholds.1, mem_some_iff] at hn
      exact hn.ge
  · rcases hsegs seg hseg with hold | hnone | hholds
    · exact h.fresh seg hold n hn hfloor p hx hy (Set.notMem_empty p) htile
    · exact absurd hn (not_held hnone)
    · exact hholds.2 p ⟨hx, hy⟩ hp

/-- A grab into an acquired slot: the pool has old segments or some without an age, and what was
filled holds this tick's picture. -/
theorem Filed.grabbed {inFlight : List Segment} {root : Picture} {cost : Segment → ℕ}
    {pool : FramePool} {slot : Option Segment}
    (h : Filed f (f.pool.free ++ inFlight) log (withCursor cursor f.w f.h root))
    (hacquire : f.pool.tryAcquireCheapest cost = some (pool, slot)) (a : Answers) :
    ∃ pool' shmLen shmUsable shmRetryIn res,
      grab { f with pool } slot (f.grabFor f.tick (slot.bind Segment.held) (cursor.map .of)) a =
        ({ f with pool := pool', shmLen, shmUsable, shmRetryIn }, res) ∧
      (∀ seg ∈ pool'.free, seg ∈ f.pool.free ∨ seg.held = none) ∧
      ∀ buf ∈ res, (∀ seg ∈ buf.2, seg.held = some f.tick) ∧
        ∀ p, OnScreen f p → p ∉ {p | ∃ i, a.seen i p ≠ root p} →
          withCursor cursor f.w f.h buf.1 p = withCursor cursor f.w f.h root p := by
  obtain ⟨hpool, hslot⟩ := tryAcquireCheapest_mem hacquire
  obtain ⟨⟨pool', l, u, r, heq, hpool'⟩, hfilled⟩ := grab_cases { f with pool } slot
    (f.grabFor f.tick (slot.bind Segment.held) (cursor.map .of)) a root
  refine ⟨pool', l, u, r, _, Prod.ext heq rfl, fun seg hseg => ?_,
    fun buf hbuf => ⟨(hfilled buf hbuf).1, fun p hp hstable => ?_⟩⟩
  · rcases hpool' seg hseg with hold | hmem | hnone
    · exact .inl (hpool seg hold)
    · exact .inl (hslot seg hmem)
    · exact .inr hnone
  · refine refresh_exact h.books.ring h.books.next
      (fun seg hseg => h.fresh seg (mem_append_left _ (hslot seg hseg))) (hfilled buf hbuf)
      hp.1 hp.2 fun i => ?_
    by_contra hne
    exact hstable ⟨i, hne⟩

/-- The slot that catches up on a tick without content. -/
theorem keepASlotCurrent_cases {inFlight : List Segment} {root : Picture}
    (h : Filed f (f.pool.free ++ inFlight) log (withCursor cursor f.w f.h root)) (a : Answers) :
    ∃ pool shmLen shmUsable shmRetryIn,
      f.keepASlotCurrent cursor a = { f with pool, shmLen, shmUsable, shmRetryIn } ∧
      ∀ seg ∈ pool.free, seg ∈ f.pool.free ∨ seg.held = none ∨
        Holds f (withCursor cursor f.w f.h root) {p | ∃ i, a.seen i p ≠ root p} seg := by
  unfold keepASlotCurrent
  dsimp only
  split
  · exact ⟨f.pool, f.shmLen, f.shmUsable, f.shmRetryIn, rfl, fun seg hseg => .inl hseg⟩
  rename_i pool slot hacquire
  obtain ⟨hpool, hslot⟩ := tryAcquireCheapest_mem hacquire
  have hback : ∀ seg ∈ (pool.giveBack slot).free, seg ∈ f.pool.free := by
    intro seg hseg
    rcases mem_giveBack.1 hseg with hfree | hmem
    · exact hpool seg hfree
    · exact hslot seg hmem
  split
  · exact ⟨_, f.shmLen, f.shmUsable, f.shmRetryIn, rfl, fun seg hseg => .inl (hback seg hseg)⟩
  rename_i held hheld
  split_ifs
  · exact ⟨_, f.shmLen, f.shmUsable, f.shmRetryIn, rfl, fun seg hseg => .inl (hback seg hseg)⟩
  -- the slot is refreshed as for a frame
  obtain ⟨pool', l, u, r, res, hgrab, hfree, hbuf⟩ := h.grabbed hacquire a
  rw [hheld] at hgrab
  rw [hgrab]
  rcases res with _ | ⟨picture, _ | seg⟩
  · exact ⟨pool', l, u, r, rfl, fun seg hseg => (hfree seg hseg).imp_right .inl⟩
  · exact ⟨pool', l, u, r, rfl, fun seg hseg => (hfree seg hseg).imp_right .inl⟩
  · refine ⟨_, l, u, r, rfl, fun seg' hseg' => ?_⟩
    rcases mem_giveBack.1 hseg' with hold | hmem
    · exact (hfree seg' hold).imp_right .inl
    · obtain rfl := some.inj hmem
      obtain ⟨hheld, hpicture⟩ := hbuf _ rfl
      exact .inr (.inr ⟨hheld seg rfl, hpicture⟩)

/-! ### A whole tick -/

/-- What holds after the capture of a tick. -/
structure Settled (s : Display) (t : Tick) (r : X11Frames × Sent) (log : ChangeLog (ℕ × ℕ)) :
    Prop where
  books : Books r.1 (r.1.pool.free ++ (s.inFlight ++ r.2.storage)) log
  lastCursor : r.1.lastCursor = (r.2.drawn s.drawn t.cursor).map .of
  lastSerial : r.1.lastCursorSerial = (r.2.drawn s.drawn t.cursor).map CursorReply.cursorSerial
  shown : r.1.plan = none →
    Shown r.1 (r.1.pool.free ++ (s.inFlight ++ r.2.storage)) log s.root (t.volatile s.root)
      (r.2.drawn s.drawn t.cursor) (r.2.shown s.sent)
  exact : ExactFor s.root (t.volatile s.root) t.cursor s.sent r.2

/-- A capture that fails before it grabs keeps its plan, so nothing is promised. -/
theorem Ready.settled_failed (hkept : s.Kept artwork old) (h : s.Ready t log f) :
    s.Settled t (f, .failed) log := by
  obtain ⟨plan, hplan, -⟩ := h.planned
  refine ⟨?_, h.lastCursor.trans hkept.lastCursor, h.lastSerial.trans hkept.lastSerial,
    fun hnone => ?_, trivial⟩
  · simpa only [Sent.storage, append_nil] using h.books
  · rw [hplan] at hnone
    cases hnone

/-- Filing a tick whose grab set names whatever changed. -/
theorem Ready.filed (h : s.Ready t log f) {keys : Set (ℕ × ℕ)}
    (hring : f'.RingHolds (log.mark keys).advance) (htick : f'.tick = f.tick + 1)
    (hsize : f'.w = f.w ∧ f'.h = f.h ∧ f'.ageFloor = f.ageFloor ∧ f'.pool = f.pool)
    (hkeys : ∀ p, OnScreen f p → tileOf p ∉ keys →
      Shown f (f.pool.free ++ s.inFlight) log s.root s.changed s.drawn s.sent ∧
      p ∉ s.changed ∧
      withCursor s.drawn f.w f.h s.root p = withCursor t.cursor f.w f.h s.root p) :
    Filed f' (f'.pool.free ++ s.inFlight) (log.mark keys).advance
      (withCursor t.cursor f'.w f'.h s.root) := by
  obtain ⟨hw, hh, hfloor, hpool⟩ := hsize
  rw [hpool, hw, hh]
  have hheld : ∀ seg ∈ f.pool.free ++ s.inFlight, ∀ n ∈ seg.held, n < log.next := by
    intro seg hseg n hn
    rw [h.books.next]
    exact Nat.lt_succ_of_le (h.books.held seg hseg n hn)
  refine ⟨⟨?_, rfl, hring, fun seg hseg n hn => ?_⟩, fun seg hseg => ?_⟩
  · rw [htick, ← h.books.next]
    rfl
  · rw [htick]
    exact (h.books.held seg hseg n hn).trans (Nat.le_succ _)
  · have hfresh : f.Fresh (log.mark keys).advance (withCursor t.cursor f.w f.h s.root) ∅ seg :=
      X11Frames.Fresh.filed (hheld seg hseg) fun p hx hy hp => by
        obtain ⟨hshown, hstable, hview⟩ := hkeys p ⟨hx, hy⟩ hp
        exact ⟨hshown.fresh seg hseg, hstable, hview⟩
    unfold X11Frames.Fresh at hfresh ⊢
    rw [hfloor, hw, hh]
    exact hfresh

theorem Ready.settled_unchanged (hkept : s.Kept artwork old) (h : s.Ready t log f)
    (hfree : f.tickIsContentFree = true) :
    ∃ log', s.Settled t
      (f.unchangedTick.keepASlotCurrent f.polledCursor.join t.answers,
        .unchanged f.unchangedTick.w f.unchangedTick.h) log' := by
  obtain ⟨plan, hplan, hknown⟩ := h.planned
  simp only [tickIsContentFree, hplan, any_some, Bool.and_eq_true, beq_iff_eq,
    matchesPx_iff] at hfree
  obtain ⟨⟨⟨⟨-, hsent⟩, -⟩, -⟩, ⟨⟨hk, -⟩, hpx⟩, hempty⟩ := hfree
  obtain ⟨hshown, hnames⟩ := hknown hk hpx
  have hclean : ∀ p, OnScreen f p → p ∉ s.changed ∧
      withCursor s.drawn f.w f.h s.root p = withCursor t.cursor f.w f.h s.root p := by
    intro p hp
    refine hnames p hp fun hmem => ?_
    rw [mem_tiles, get_of_isEmpty hempty] at hmem
    cases hmem
  obtain ⟨⟨ring, union, heq⟩, hring⟩ :=
    unchangedTick_cases h.books.ring h.books.current h.books.next
  rw [heq] at hring ⊢
  have hfiled := h.filed hring rfl ⟨rfl, rfl, rfl, rfl⟩ fun p hp _ => ⟨hshown, hclean p hp⟩
  rw [h.polled, join_some]
  obtain ⟨pool, l, u, r, hkeep, hpool⟩ := keepASlotCurrent_cases hfiled t.answers
  obtain ⟨hbooks, hfresh⟩ := hfiled.fresh_of (mem_or_flying _ hpool)
  obtain ⟨picture, hpicture, hagree⟩ := hshown.sent hsent
  refine ⟨(log.mark ∅).advance, ?_⟩
  rw [hkeep]
  refine ⟨⟨hbooks.next, hbooks.current, ?_, ?_⟩, h.lastCursor.trans hkept.lastCursor,
    h.lastSerial.trans hkept.lastSerial, fun _ => ⟨?_, fun _ => ?_⟩, picture, hpicture, ?_⟩
  · exact ⟨hbooks.ring.length, hbooks.ring.entry, hbooks.ring.union⟩
  · simpa only [Sent.storage, append_nil] using hbooks.held
  · -- the pointer on display and the one polled look the same
    intro seg hseg n hn hfloor p hx hy hp htile
    simp only [Sent.storage, append_nil] at hseg
    rw [hfresh seg hseg n hn hfloor p hx hy hp htile]
    exact (hclean p ⟨hx, hy⟩).2.symm
  · exact ⟨picture, hpicture, fun p hp _ => hagree p hp (hclean p hp).1⟩
  · exact fun p hx hy _ => composited_withCursor hx hy
      ((hagree p ⟨hx, hy⟩ (hclean p ⟨hx, hy⟩).1).trans (hclean p ⟨hx, hy⟩).2)

theorem Ready.settled_captured (hkept : s.Kept artwork old) (h : s.Ready t log f)
    (hpermits : f.pool.permits ≠ 0) : ∃ log', s.Settled t (f.captureFrame t.answers) log' := by
  obtain ⟨plan, hplan, hknown⟩ := h.planned
  have hring : ({ f with polledCursor := none } : X11Frames).RingHolds log :=
    ⟨h.books.ring.length, h.books.ring.entry, h.books.ring.union⟩
  obtain ⟨keys, ⟨ring, union, verifyMask, libDamage, heq⟩, hring, hkeys⟩ :=
    fileTick_cases hring h.books.current h.books.next hplan
  have hfiled := h.filed hring (by rw [heq]; rfl) (by rw [heq]; exact ⟨rfl, rfl, rfl, rfl⟩)
    fun p hp hkey => by
      obtain ⟨hk, hpx, htile⟩ := hkeys p hp.1 hp.2 hkey
      obtain ⟨hshown, hnames⟩ := hknown hk hpx
      exact ⟨hshown, hnames p hp htile⟩
  have hlast : ({ f with polledCursor := none } : X11Frames).fileTick.lastCursor = f.lastCursor ∧
      ({ f with polledCursor := none } : X11Frames).fileTick.lastCursorSerial =
        f.lastCursorSerial ∧
      ({ f with polledCursor := none } : X11Frames).fileTick.pool = f.pool := by
    rw [heq]
    exact ⟨rfl, rfl, rfl⟩
  unfold captureFrame
  rw [h.polled, getD_some]
  dsimp only
  generalize ({ f with polledCursor := none } : X11Frames).fileTick = g at hfiled hlast
  obtain ⟨hcur, hserial, hgpool⟩ := hlast
  split
  · rename_i hnone
    rw [X11.FramePool.tryAcquireCheapest, hgpool, if_neg hpermits] at hnone
    split at hnone <;> cases hnone
  rename_i pool slot hacquire
  obtain ⟨pool', l, u, r, res, hgrab, hfree, hbuf⟩ := hfiled.grabbed hacquire t.answers
  rw [hgrab]
  have hsegs := mem_or_flying s.inFlight hfree
  refine ⟨(log.mark keys).advance, ?_⟩
  rcases res with _ | ⟨picture, storage⟩
  · -- the grab failed: from here every slot's age is unknown
    have hheld : ∀ seg ∈ pool'.free ++ (s.inFlight ++ []), ∀ n ∈ seg.held, n ≤ g.tick := by
      intro seg hseg n hn
      rw [append_nil] at hseg
      rcases hsegs seg hseg with hold | hnone
      · exact hfiled.books.held seg hold n hn
      · exact absurd hn (not_held hnone)
    refine ⟨⟨hfiled.books.next, hfiled.books.current, ⟨.inl rfl, ?_, ?_⟩, hheld⟩,
      hcur.trans (h.lastCursor.trans hkept.lastCursor),
      hserial.trans (h.lastSerial.trans hkept.lastSerial), fun _ => ⟨?_, fun hsent => ?_⟩, trivial⟩
    · exact fun e he => absurd he not_mem_nil
    · exact fun e he => absurd he not_mem_nil
    · intro seg hseg n hn hfloor
      exact absurd (hheld seg hseg n hn) (Nat.not_le_of_lt hfloor)
    · cases hsent
  · obtain ⟨hheld, hpicture⟩ := hbuf _ rfl
    have hall : ∀ seg ∈ pool'.free ++ (s.inFlight ++ (storage.map fun seg =>
          { seg with picture := withCursor t.cursor g.w g.h picture }).toList),
        seg ∈ g.pool.free ++ s.inFlight ∨ seg.held = none ∨
          Holds g (withCursor t.cursor g.w g.h s.root) (t.volatile s.root) seg := by
      intro seg hseg
      rw [← append_assoc] at hseg
      rcases mem_append.1 hseg with hseg | hseg
      · exact (hsegs seg hseg).imp_right .inl
      · obtain ⟨seg', hseg', rfl⟩ := map_eq_some_iff.1 (mem_toList.1 hseg)
        exact .inr (.inr ⟨hheld seg' hseg', hpicture⟩)
    obtain ⟨hbooks, hfresh⟩ := hfiled.fresh_of hall
    refine ⟨⟨hbooks.next, hbooks.current, ?_, hbooks.held⟩, rfl, rfl,
      fun _ => ⟨hfresh, fun _ => ?_⟩,
      fun p hx hy hp => composited_withCursor hx hy (hpicture p ⟨hx, hy⟩ hp)⟩
    · exact ⟨hbooks.ring.length, hbooks.ring.entry, hbooks.ring.union⟩
    · exact ⟨_, rfl, hpicture⟩

/-- Every tick of a truthful run settles. -/
theorem Kept.settled (h : s.Kept artwork log) (ht : s.Truthful artwork (.tick t)) :
    ∃ log', s.Settled t (s.grabbed t) log' := by
  obtain ⟨hready, hpx⟩ := h.planned ht
  unfold grabbed capture
  dsimp only
  generalize (s.frames.drainDamage t.cursor t.drained).1.planGrab
    (s.frames.drainDamage t.cursor t.drained).2 t.slice t.trusted = f at hready hpx
  rcases hrefresh : f.refreshGeometry t.answers with _ | f'
  · exact ⟨log, hready.settled_failed h⟩
  · have hready' := hready.refreshed hpx hrefresh
    dsimp only
    split_ifs with hfree hpermits
    · exact hready'.settled_unchanged h hfree
    · exact ⟨log, hready'.settled_failed h⟩
    · exact hready'.settled_captured h hpermits

/-- Painting the root makes the painted pixels volatile. -/
theorem Shown.painted {segs : List Segment} {root root' : Picture} {changed : Set (ℕ × ℕ)}
    {sent : Option ((ℕ × ℕ) × Picture)} (h : Shown f segs log root changed drawn sent) :
    Shown f segs log root' (changed ∪ {p | root' p ≠ root p}) drawn sent := by
  have hview : ∀ p, p ∉ changed ∪ {p | root' p ≠ root p} →
      withCursor drawn f.w f.h root p = withCursor drawn f.w f.h root' p := by
    intro p hp
    refine withCursor_congr ?_
    by_contra hne
    exact hp (.inr (Ne.symm hne))
  refine ⟨fun seg hseg n hn hfloor p hx hy hp htile => ?_, fun hsent => ?_⟩
  · rw [← hview p hp]
    exact h.fresh seg hseg n hn hfloor p hx hy (fun hmem => hp (.inl hmem)) htile
  · obtain ⟨picture, hpicture, hagree⟩ := h.sent hsent
    refine ⟨picture, hpicture, fun p hscreen hp => ?_⟩
    rw [← hview p hp]
    exact hagree p hscreen fun hmem => hp (.inl hmem)

theorem Kept.step (h : s.Kept artwork log) {op : Op} (hop : s.Truthful artwork op) :
    ∃ log', (s.step op).Kept artwork log' := by
  cases op with
  | paint root =>
    exact ⟨log, h.books, h.lastCursor, h.lastSerial, h.artwork,
      fun hplan => (h.shown hplan).painted⟩
  | tick t =>
    obtain ⟨log', hsettled⟩ := h.settled hop
    refine ⟨log', hsettled.books, hsettled.lastCursor, hsettled.lastSerial, fun d hd => ?_,
      fun hplan => (hsettled.shown hplan).painted⟩
    change d ∈ (s.grabbed t).2.drawn s.drawn t.cursor at hd
    cases hout : (s.grabbed t).2 <;> rw [hout] at hd
    · exact h.artwork d hd
    · exact h.artwork d hd
    · exact hop.2 d hd
  | giveBack i =>
    have hmem : ∀ seg ∈ (s.step (.giveBack i)).segments, seg ∈ s.segments := by
      intro seg hseg
      rcases mem_append.1 hseg with hseg | hseg
      · change seg ∈ ((s.inFlight[i]?).elim s.frames.pool
          fun seg => s.frames.pool.giveBack (some seg)).free at hseg
        rcases hget : s.inFlight[i]? with _ | back
        · rw [hget] at hseg
          exact mem_append_left _ hseg
        · rw [hget] at hseg
          rcases mem_giveBack.1 hseg with hfree | hback
          · exact mem_append_left _ hfree
          · obtain rfl := some.inj hback
            exact mem_append_right _ (mem_of_getElem? hget)
      · exact mem_append_right _ (mem_of_mem_eraseIdx hseg)
    refine ⟨log,
      ⟨h.books.next, h.books.current, ?_, fun seg hseg => h.books.held seg (hmem seg hseg)⟩,
      h.lastCursor, h.lastSerial, h.artwork, fun hplan => ?_⟩
    · exact ⟨h.books.ring.length, h.books.ring.entry, h.books.ring.union⟩
    · obtain ⟨hfresh, hsent⟩ := h.shown hplan
      exact ⟨fun seg hseg => hfresh seg (hmem seg hseg), hsent⟩
  | frameDropped =>
    refine ⟨log, ⟨h.books.next, h.books.current, ?_, h.books.held⟩, h.lastCursor, h.lastSerial,
      h.artwork, fun hplan => ⟨(h.shown hplan).fresh, fun hsent => ?_⟩⟩
    · exact ⟨h.books.ring.length, h.books.ring.entry, h.books.ring.union⟩
    · cases hsent
  | setAllowUnchanged on =>
    refine ⟨log, ⟨h.books.next, h.books.current, ?_, h.books.held⟩, h.lastCursor, h.lastSerial,
      h.artwork, fun hplan => ?_⟩
    · exact ⟨h.books.ring.length, h.books.ring.entry, h.books.ring.union⟩
    · obtain ⟨hfresh, hsent⟩ := h.shown hplan
      exact ⟨hfresh, hsent⟩

theorem kept_start (artwork : UInt32 → List UInt32) (width height : UInt16) (shmUsable : Bool)
    (attach : Option AttachError) (root : Picture) :
    (start width height shmUsable attach root).Kept artwork ⟨∅, fun _ => ∅, 1⟩ := by
  obtain ⟨pool, l, u, r, heq, hpool⟩ :=
    reslotted_ensureSegment (.unattached width height shmUsable) attach
  have hnone : ∀ seg ∈ pool.free ++ [], seg.held = none := by
    intro seg hseg
    rw [append_nil] at hseg
    rcases hpool seg hseg with hfree | hslot | hnone
    · exact absurd hfree not_mem_nil
    · exact absurd hslot (not_mem_none _)
    · exact hnone
  unfold start connect
  rw [heq]
  refine ⟨⟨rfl, rfl, ⟨.inl rfl, fun e he => absurd he not_mem_nil,
    fun e he => absurd he not_mem_nil⟩, fun seg hseg n hn => ?_⟩, rfl, rfl,
    fun d hd => absurd hd (not_mem_none _), fun _ => ⟨fun seg hseg n hn => ?_, fun hsent => ?_⟩⟩
  · exact absurd hn (not_held (hnone seg hseg))
  · exact absurd hn (not_held (hnone seg hseg))
  · cases hsent

/-- **A banded grab is indistinguishable from a full grab.** -/
theorem capture_exact (artwork : UInt32 → List UInt32) (width height : UInt16) (shmUsable : Bool)
    (attach : Option AttachError) (root : Picture) (ops : List Op)
    (hops : Along (Truthful artwork) step (start width height shmUsable attach root) ops) (t : Tick)
    (ht : (run step (start width height shmUsable attach root) ops).Truthful artwork (.tick t)) :
    (run step (start width height shmUsable attach root) ops).Exact t := by
  have hkept := hops.inv (I := fun s => ∃ log, s.Kept artwork log)
    (fun s op ⟨log, hs⟩ hop => hs.step hop)
      ⟨_, kept_start artwork width height shmUsable attach root⟩
  obtain ⟨log, hkept⟩ := hkept
  obtain ⟨log', hsettled⟩ := hkept.settled ht
  exact hsettled.exact

/-- A screen of four tile rows, all dark. -/
def dark : Picture := fun _ => ⟨0, 0, 0, 255⟩

/-- Its first tile row is lit. -/
def lit : Picture := fun p => if p.2 < 32 then ⟨255, 255, 255, 255⟩ else ⟨0, 0, 0, 255⟩

/-- A pointer of one pixel, half red. -/
def halfRed (x y : Int16) : CursorReply := ⟨x, y, 1, 1, 0, 0, 7, [0x80400000]⟩

/-- A tick on a root nobody paints meanwhile. -/
def quietTick (cursor : CursorReply) (drained : Damage) (root : Picture) : Tick where
  cursor := some cursor
  drained
  slice := none
  trusted := true
  answers :=
    { geometry := some (32, 128)
      attachResize := none
      attachRetry := none
      attachGrab := none
      queried := none
      seen := fun _ => root
      served := fun _ => true }
  after := root

/-- A frame is captured with the pointer in the second row and comes back, then the first row is
lit. -/
def lightUp : List Op := [.tick (quietTick (halfRed 3 40) .unknown dark), .giveBack 0, .paint lit]

/-- The reused slot is refreshed by two bands: it shows the lit row with the pointer over it, and
nothing where the pointer was. -/
theorem capture_exact_lit :
    let artwork := fun _ => [0x80400000]
    let s := run step (start 32 128 true none dark) lightUp
    let t := quietTick (halfRed 5 6) (.tiles ((TileBitmap.new 32 128).set 0 0)) lit
    Along (Truthful artwork) step (start 32 128 true none dark) lightUp ∧
      s.Truthful artwork (.tick t) ∧ s.Exact t ∧
      s.frames.pool.free.map Segment.held = [some 1] ∧
      s.sent.map (fun shown => shown.2 (3, 40)) = some ⟨0, 0, 64, 255⟩ ∧
      ((s.grabbed t).2.shown none).map (fun shown => [(0, 0), (5, 6), (3, 40)].map shown.2) =
        some [⟨255, 255, 255, 255⟩, ⟨127, 127, 191, 255⟩, ⟨0, 0, 0, 255⟩] := by
  intro artwork s t
  have hartwork : ∀ x y, ∀ c ∈ some (halfRed x y), c.cursorImage = artwork c.cursorSerial := by
    rintro x y c ⟨⟩
    rfl
  have hops : Along (Truthful artwork) step (start 32 128 true none dark) lightUp :=
    ⟨⟨trivial, hartwork 3 40⟩, trivial, trivial, trivial⟩
  have ht : s.Truthful artwork (.tick t) := by
    refine ⟨fun _ p hp hscreen => ?_, hartwork 5 6⟩
    rcases hp with (⟨i, hne⟩ | hne) | hne
    · exact absurd rfl hne
    · exact absurd rfl hne
    · have hrow : p.2 < 32 := by
        by_contra hge
        exact hne (by simp only [lit, if_neg hge]; rfl)
      have hcol : p.1 < 32 := hscreen.1
      have htile : tileOf p = (0, 0) :=
        Prod.ext (Nat.div_eq_of_lt hcol) (Nat.div_eq_of_lt hrow)
      rw [htile, mem_tiles]
      decide
  refine ⟨hops, ht, capture_exact _ 32 128 true none dark lightUp hops t ht, ?_, ?_, ?_⟩
  · decide +kernel
  · decide +kernel
  · decide +kernel

end Display

end Ghostframe.X11
