import Ghostframe.Transport.StaleWork
import Ghostframe.Transport.TileBridge

/-!
# Runs of the tile path

A run of the tile path, and beside it what no 4-bit generation and no label tells: the true
generation of every tile (`epoch`, the number of its bumps), of every queued item (`filed`) and of
every transmission, and the true frame number behind every label.

* `bridge_step`: the bridge of a run does what the model of the code does;
* `Stamped`: in the grid an unresolved item is the one its slot holds, and is of the tile's current
  generation;
* `InStep.step`, `fresh_of_tick`: every step keeps that, and what a drain sends is current.
-/

namespace Ghostframe.Transport

open Protocol TileBridge List Option TileWork

/-- One transmission of a tile pass: the key an acknowledgement of it resolves to, the generation
on the wire, the true generation, and the frame its label was assigned in. -/
structure Departure where
  key : EmitKey
  generation : UInt8
  epoch : ℕ
  frame : ℕ
  deriving DecidableEq

/-- The frame behind the label of a tile sent in `frame`: that of the label it has, or else this. -/
def frameUnder (m : SlotMap) (labelFrame : UInt8 × UInt8 → ℕ) (x y : UInt8) (frame : ℕ) : ℕ :=
  if ((m.slot x y).bind TileSlot.label).isSome then labelFrame (x, y) else frame

/-- The tile path, and what an observer of the whole run knows. -/
structure BridgeRun where
  bridge : TileBridge
  epoch : UInt8 × UInt8 → ℕ := fun _ => 0
  filed : Handle → Option ℕ := fun _ => none
  labelFrame : UInt8 × UInt8 → ℕ := fun _ => 0
  lastFrame : ℕ := 0
  sent : List Departure := []
  acked : List Departure := []
  dropped : List Departure := []

namespace BridgeRun

/-- A new session on a grid. -/
def start (cols rows capacity : ℕ) (now : Instant) : BridgeRun where
  bridge :=
    { scheduler := .new cols rows
      fragmentCoverage := .new capacity
      emitter := .new now
      paletteTable := .new }

/-! ### The parts of a step -/

variable (r : BridgeRun)

/-- The emitter changes, and nothing else. -/
def withEmitter (e : ReliableTileEmitter) : BridgeRun :=
  { r with bridge := { r.bridge with emitter := e } }

/-- What the tile has in flight is forgotten. -/
def cancel (x y : UInt8) : BridgeRun :=
  { r with bridge := r.bridge.cancelInFlightForTile x y }

/-- The tile enters its next generation. -/
def bump (x y : UInt8) : BridgeRun :=
  { r with
    bridge := r.bridge.bumpGeneration x y
    epoch := Function.update r.epoch (x, y) (r.epoch (x, y) + 1) }

/-- The handle is of an item of the tile's current generation. -/
def note (h : Handle) (w : TileWork) : Handle → Option ℕ :=
  Function.update r.filed h (some (r.epoch w.tile))

/-- A single-pass item is queued. -/
def enqueue (w : TileWork) (now : Instant) : BridgeRun :=
  { r with
    bridge := { r.bridge with scheduler := r.bridge.scheduler.enqueueAt w now }
    filed := r.note (r.bridge.scheduler.file (w.queued now)).2 w }

/-- A refinement item is queued. -/
def refine (w : TileWork) : BridgeRun :=
  { r with
    bridge := { r.bridge with scheduler := r.bridge.scheduler.fileRefinement w }
    filed := r.note (r.bridge.scheduler.file w).2 w }

/-- The frame behind the label of a tile that is sent in `frame`. -/
def frameOf (x y : UInt8) (frame : ℕ) : ℕ :=
  frameUnder r.bridge.scheduler.slots r.labelFrame x y frame

variable (args : DrainArgs) (frame : ℕ)

/-- The transmission of a work item. -/
def departure (e : SentWork) : Departure where
  key := r.bridge.emitKey args.seq e.work
  generation := e.work.generation
  epoch := (r.filed e.handle).getD 0
  frame := r.frameOf e.work.tileX e.work.tileY frame

/-- One item of a drain is sent. -/
def emit (r : BridgeRun) (e : SentWork) : BridgeRun :=
  { r with
    bridge := emitWork args r.bridge e
    labelFrame :=
      Function.update r.labelFrame e.work.tile (r.frameOf e.work.tileX e.work.tileY frame)
    sent :=
      if args.maxFrag < e.work.payload.length then r.sent
      else r.sent ++ [r.departure args frame e] }

/-- The run with its tick made. -/
def ticked : BridgeRun :=
  { r with
    bridge := { r.bridge with scheduler := (r.bridge.tick args).1 }
    lastFrame := frame }

/-- A drain in a frame. -/
def drain : BridgeRun :=
  (r.bridge.tick args).2.foldl (emit args frame) (r.ticked args frame)

/-- The transmission whose datagram is cached under a key: the last one sent under it. -/
def cached (key : EmitKey) : Option Departure :=
  if (r.bridge.emitter.cache.get key).isSome then r.sent.reverse.find? fun d => d.key = key
  else none

/-- Some departed transmissions are acknowledged. -/
def ack (ds : List Departure) : BridgeRun :=
  { r with
    bridge := r.bridge.dispatchAck (ds.map Departure.key)
    acked := r.acked ++ ds
    dropped := r.dropped ++ ds.filterMap fun d => r.cached d.key }

end BridgeRun

/-! ### Steps -/

/-- A step of the tile path. -/
inductive BridgeOp
  | dispatchTile (x y : UInt8) (codec : Codec) (payload : Bytes) (now : Instant)
  | supersedeTile (x y : UInt8)
  | enqueueCdf53Generation (x y : UInt8) (enc : Cdf53Encoded) (now : Instant)
  | strandedReenqueue (x y : UInt8) (enc : Cdf53Encoded) (now : Instant)
  | drain (frame : ℕ) (timestampUs : UInt32) (maxFrag budget share : ℕ) (now : Instant)
  /-- Acknowledgements of the transmissions at these places of the list of departures. -/
  | ack (places : List ℕ)
  | onNack (entries : List EmitKey)
  | tickBudgeted (now : Instant) (maxRetransmits maxBytes : ℕ)
  /-- A pass the emitter gives up on. -/
  | retire (key : EmitKey)

namespace BridgeRun

/-- The parameters of a drain in a frame: sequence numbers are the frame numbers, 32 bits wide. -/
def drainArgs (frame : ℕ) (timestampUs : UInt32) (maxFrag budget share : ℕ) (now : Instant) :
    DrainArgs :=
  ⟨.ofNat frame, timestampUs, maxFrag, budget, share, now⟩

/-- The departures at some places of the list. -/
def departures (r : BridgeRun) (places : List ℕ) : List Departure :=
  places.filterMap fun i => r.sent[i]?

/-- The items a stranded tile queues again. -/
def strandedItems (b : TileBridge) (x y : UInt8) (enc : Cdf53Encoded) (now : Instant) :
    List TileWork :=
  let gen := b.scheduler.slots.generation x y
  let unacked := b.scheduler.slots.unackedMask x y gen enc.presentPasses
  if unacked = 0 then []
  else if b.scheduler.refinementQueueHoldsTile x y then []
  else
    Scheduler.subsetItems x y gen (subsetMask (onlyUnacked enc unacked))
      ((onlyUnacked enc unacked).map Prod.snd) now

/-- The generation a bump of the tile gives. -/
def nextGen (r : BridgeRun) (x y : UInt8) : UInt8 :=
  (r.bridge.scheduler.bumpGenerationCollecting x y).2.1

/-- One step of a run. -/
def step (r : BridgeRun) : BridgeOp → BridgeRun
  | .dispatchTile x y codec payload now =>
    ((r.cancel x y).bump x y).enqueue (singlePass x y (r.nextGen x y) codec payload now) now
  | .supersedeTile x y => (r.cancel x y).bump x y
  | .enqueueCdf53Generation x y enc now =>
    (Scheduler.subsetItems x y (r.nextGen x y) enc.presentPasses (enc.passes.map Prod.snd)
      now).foldl refine ((r.withEmitter (r.bridge.emitter.cancelForTile (x, y))).bump x y)
  | .strandedReenqueue x y enc now => (strandedItems r.bridge x y enc now).foldl refine r
  | .drain frame timestampUs maxFrag budget share now =>
    r.drain (drainArgs frame timestampUs maxFrag budget share now) frame
  | .ack places => r.ack (r.departures places)
  | .onNack entries => r.withEmitter (r.bridge.emitter.onNack entries)
  | .tickBudgeted now maxRetransmits maxBytes =>
    r.withEmitter (r.bridge.emitter.tickBudgeted now maxRetransmits maxBytes).1
  | .retire key =>
    r.withEmitter { r.bridge.emitter with cache := r.bridge.emitter.cache.remove key }

/-- Tile `(0, 0)` becomes dirty, and has one colour. -/
def dirty : BridgeOp := .dispatchTile 0 0 .solid [0, 0, 0, 255] 0

/-- All that is queued is sent in a frame. -/
def drainAll (frame : ℕ) : BridgeOp := .drain frame 0 1200 4096 2048 0

end BridgeRun

/-- The tile path after a step, given the keys of the departures so far. -/
def BridgeOp.apply (sent : List Departure) (b : TileBridge) : BridgeOp → TileBridge
  | .dispatchTile x y codec payload now => b.dispatchTile x y codec payload now
  | .supersedeTile x y => b.supersedeTile x y
  | .enqueueCdf53Generation x y enc now => b.enqueueCdf53Generation x y enc now
  | .strandedReenqueue x y enc now => b.strandedReenqueue x y enc now
  | .drain frame timestampUs maxFrag budget share now =>
    b.drainSchedulerIntoQuinn (BridgeRun.drainArgs frame timestampUs maxFrag budget share now)
  | .ack places => b.dispatchAck ((places.filterMap fun i => sent[i]?).map Departure.key)
  | .onNack entries => { b with emitter := b.emitter.onNack entries }
  | .tickBudgeted now maxRetransmits maxBytes =>
    { b with emitter := (b.emitter.tickBudgeted now maxRetransmits maxBytes).1 }
  | .retire key => { b with emitter := { b.emitter with cache := b.emitter.cache.remove key } }

namespace BridgeRun

theorem bridge_refine_foldl (ws : List TileWork) :
    ∀ r : BridgeRun, (ws.foldl refine r).bridge =
      { r.bridge with scheduler := ws.foldl Scheduler.fileRefinement r.bridge.scheduler } := by
  induction ws with
  | nil => exact fun r => rfl
  | cons w ws ih =>
    intro r
    rw [foldl_cons, ih, foldl_cons]
    rfl

theorem bridge_emit_foldl (args : DrainArgs) (frame : ℕ) (out : List SentWork) :
    ∀ r : BridgeRun,
        (out.foldl (emit args frame) r).bridge = out.foldl (emitWork args) r.bridge := by
  induction out with
  | nil => exact fun r => rfl
  | cons e out ih =>
    intro r
    rw [foldl_cons, ih, foldl_cons]
    rfl

/-- **The bridge of a run does what the model of the code does.** -/
theorem bridge_step (r : BridgeRun) (op : BridgeOp) :
    (r.step op).bridge = op.apply r.sent r.bridge := by
  cases op with
  | enqueueCdf53Generation x y enc now =>
    rw [step, bridge_refine_foldl]
    rfl
  | strandedReenqueue x y enc now =>
    rw [step, bridge_refine_foldl]
    simp only [BridgeOp.apply, strandedReenqueue, strandedItems]
    split
    · rfl
    · split <;> rfl
  | drain frame timestampUs maxFrag budget share now =>
    rw [step, drain, bridge_emit_foldl]
    rfl
  | _ => rfl

end BridgeRun

/-! ### The items of the current generation -/

/-- A generation as the wire carries it: four bits. -/
def wireGen (n : ℕ) : UInt8 := .ofNat (n % 16)

theorem toNat_wireGen (n : ℕ) : (wireGen n).toNat = n % 16 := by
  rw [wireGen, UInt8.toNat_ofNat_of_lt' (by simp only [UInt8.size]; omega)]

theorem wireGen_succ (n : ℕ) : (wireGen n + 1) &&& generationMask = wireGen (n + 1) := by
  have hone : (1 : UInt8).toNat = 1 := rfl
  have hmask : generationMask.toNat = 2 ^ 4 - 1 := rfl
  rw [← UInt8.toNat_inj, UInt8.toNat_and, UInt8.toNat_add, toNat_wireGen, toNat_wireGen, hone,
    hmask, Nat.and_two_pow_sub_one_eq_mod]
  omega

/-- The slots know the tiles' generations, and in the grid an unresolved item is the one its slot
holds and is of its tile's current generation. -/
structure Stamped (m : SlotMap) (get : Handle → Option TileWork) (epoch : UInt8 × UInt8 → ℕ)
    (filed : Handle → Option ℕ) : Prop where
  gen : ∀ x y t, m.slot x y = some t → t.currentGen = wireGen (epoch (x, y))
  pass : ∀ h w, get h = some w → w.Active → w.passIdx.toNat < passSlots
  held : ∀ h w, get h = some w → w.Active → m.InGrid w.tileX w.tileY →
    m.handle w.tileX w.tileY w.passIdx = some h
  current : ∀ h w, get h = some w → w.Active → m.InGrid w.tileX w.tileY →
    filed h = some (epoch w.tile) ∧ w.generation = wireGen (epoch w.tile)

namespace Stamped

variable {m : SlotMap} {get get' : Handle → Option TileWork} {epoch : UInt8 × UInt8 → ℕ}
  {filed : Handle → Option ℕ} {h : Handle} {w : TileWork} {x y : UInt8}

/-- Items may go, be resolved or be sent. -/
theorem of_active (hs : Stamped m get epoch filed)
    (hsub : ∀ k w', get' k = some w' → w'.Active →
      ∃ w, get k = some w ∧ w.Active ∧ w'.key = w.key ∧ w'.generation = w.generation) :
    Stamped m get' epoch filed := by
  have hkey : ∀ {v w : TileWork}, v.key = w.key →
      v.tileX = w.tileX ∧ v.tileY = w.tileY ∧ v.passIdx = w.passIdx := by
    intro v w hvw
    simpa [key] using hvw
  refine ⟨hs.gen, ?_, ?_, ?_⟩
  · intro k w' hw' ha'
    obtain ⟨w, hw, ha, he, -⟩ := hsub k w' hw' ha'
    rw [(hkey he).2.2]
    exact hs.pass k w hw ha
  · intro k w' hw' ha' hin
    obtain ⟨w, hw, ha, he, -⟩ := hsub k w' hw' ha'
    obtain ⟨hx, hy, hp⟩ := hkey he
    rw [hx, hy, hp]
    rw [hx, hy] at hin
    exact hs.held k w hw ha hin
  · intro k w' hw' ha' hin
    obtain ⟨w, hw, ha, he, hg⟩ := hsub k w' hw' ha'
    obtain ⟨hx, hy, -⟩ := hkey he
    rw [hx, hy] at hin
    rw [tile, hx, hy, hg]
    exact hs.current k w hw ha hin

theorem weaken (hs : Stamped m get epoch filed) (hw : Weakens get get') :
    Stamped m get' epoch filed := by
  refine hs.of_active ?_
  intro k w' hw' ha
  obtain ⟨w, hget, -, hsame⟩ := hw k w' hw'
  obtain rfl := hsame ha
  exact ⟨w', hget, ha, rfl, rfl⟩

/-- An update of a slot that keeps its generation and its handles. -/
theorem modifySlot (hs : Stamped m get epoch filed) (x y : UInt8) {f : TileSlot → TileSlot}
    (hpasses : ∀ t, (f t).passes = t.passes) (hgen : ∀ t, (f t).currentGen = t.currentGen) :
    Stamped (m.modifySlot x y f) get epoch filed := by
  have hgrid : ∀ x' y', (m.modifySlot x y f).InGrid x' y' ↔ m.InGrid x' y' := by
    simp [SlotMap.InGrid]
  refine ⟨?_, hs.pass, ?_, ?_⟩
  · intro x' y' t ht
    rw [SlotMap.slot_modifySlot] at ht
    split at ht
    · rename_i he
      obtain ⟨t', ht', rfl⟩ := map_eq_some_iff.1 ht
      rw [hgen, he.1, he.2]
      exact hs.gen x y t' ht'
    · exact hs.gen x' y' t ht
  · intro k w hw ha hin
    rw [SlotMap.handle_modifySlot m x y hpasses]
    exact hs.held k w hw ha ((hgrid _ _).1 hin)
  · exact fun k w hw ha hin => hs.current k w hw ha ((hgrid _ _).1 hin)

/-- The next generation of a tile without unresolved items. -/
theorem bump (hs : Stamped m get epoch filed)
    (hfree : ∀ k w, get k = some w → w.Active → m.InGrid w.tileX w.tileY → w.tile ≠ (x, y)) :
    Stamped (m.bumpGeneration x y).1 get (Function.update epoch (x, y) (epoch (x, y) + 1))
        filed := by
  have hgrid : ∀ x' y', (m.bumpGeneration x y).1.InGrid x' y' ↔ m.InGrid x' y' := by
    simp [SlotMap.InGrid, SlotMap.bumpGeneration]
  refine ⟨?_, hs.pass, ?_, ?_⟩
  · intro x' y' t ht
    rw [SlotMap.bumpGeneration, SlotMap.slot_modifySlot] at ht
    split at ht
    · rename_i he
      obtain ⟨t', ht', rfl⟩ := Option.map_eq_some_iff.1 ht
      rw [he.1, he.2, Function.update_self, ← wireGen_succ, ← hs.gen x y t' ht']
      rfl
    · rename_i he
      rw [Function.update_of_ne (fun h => he (Prod.mk.inj h))]
      exact hs.gen x' y' t ht
  · intro k w hw ha hin
    rw [SlotMap.handle_bumpGeneration]
    exact hs.held k w hw ha ((hgrid _ _).1 hin)
  · intro k w hw ha hin
    rw [Function.update_of_ne (hfree k w hw ha ((hgrid _ _).1 hin))]
    exact hs.current k w hw ha ((hgrid _ _).1 hin)

/-- An item of the current generation is filed where the slot holds no unresolved one. -/
theorem file (hs : Stamped m get epoch filed) (hpass : w.passIdx.toNat < passSlots)
    (hgen : m.InGrid w.tileX w.tileY → w.generation = wireGen (epoch w.tile))
    (hfree : ∀ k v, get k = some v → v.Active → m.InGrid v.tileX v.tileY → v.key ≠ w.key) :
    Stamped (m.setHandle w.tileX w.tileY w.passIdx (some h))
      (fun k => if k = h then some w else get k) epoch
      (Function.update filed h (some (epoch w.tile))) := by
  have hgrid : ∀ x' y', (m.setHandle w.tileX w.tileY w.passIdx (some h)).InGrid x' y' ↔
      m.InGrid x' y' := by
    simp [SlotMap.InGrid, SlotMap.setHandle]
  refine ⟨?_, ?_, ?_, ?_⟩
  · intro x' y' t ht
    rw [SlotMap.setHandle, SlotMap.slot_modifySlot] at ht
    split at ht
    · rename_i he
      obtain ⟨t', ht', rfl⟩ := map_eq_some_iff.1 ht
      rw [he.1, he.2, ← hs.gen _ _ t' ht', TileSlot.setHandle]
      split <;> rfl
    · exact hs.gen x' y' t ht
  · intro k v hv ha
    split at hv
    · rw [← some.inj hv]
      exact hpass
    · exact hs.pass k v hv ha
  · intro k v hv ha hin
    have hin' := (hgrid _ _).1 hin
    split at hv
    · rename_i hk
      obtain rfl := some.inj hv
      rw [SlotMap.handle_setHandle hin' hpass, if_pos ⟨rfl, rfl, rfl⟩, hk]
    · by_cases hw : m.InGrid w.tileX w.tileY
      · rw [SlotMap.handle_setHandle hw hpass, if_neg, hs.held k v hv ha hin']
        rintro ⟨hx, hy, hp⟩
        exact hfree k v hv ha hin' (by rw [key, key, hx, hy, hp])
      · rw [SlotMap.setHandle, SlotMap.modifySlot_of_not_inGrid hw]
        exact hs.held k v hv ha hin'
  · intro k v hv ha hin
    have hin' := (hgrid _ _).1 hin
    split at hv
    · rename_i hk
      obtain rfl := some.inj hv
      rw [hk, Function.update_self]
      exact ⟨rfl, hgen hin'⟩
    · rename_i hk
      rw [Function.update_of_ne hk]
      exact hs.current k v hv ha hin'

end Stamped

namespace Scheduler

variable {s : Scheduler} {epoch : UInt8 × UInt8 → ℕ} {filed : Handle → Option ℕ}

/-- A bump retires what the slot holds and advances the generation. -/
theorem bumpGenerationCollecting_spec (s : Scheduler) (x y : UInt8) :
    (s.bumpGenerationCollecting x y).1.slots = (s.slots.bumpGeneration x y).1 ∧
      (s.bumpGenerationCollecting x y).1.work = (s.retirePasses x y passIndices).work ∧
      (s.bumpGenerationCollecting x y).2.1 = (s.slots.bumpGeneration x y).2 := by
  have hacc := collect_fst s x y passIndices []
  have hslots := slots_retirePasses s x y passIndices
  unfold bumpGenerationCollecting
  generalize passIndices.foldl (collectPass x y) (s, []) = acc at hacc ⊢
  generalize s.retirePasses x y passIndices = t at hacc hslots ⊢
  subst hacc
  simp only [hslots, and_self]

/-- Filing retires what the slot holds for the pass, and stores the item. -/
theorem file_spec (s : Scheduler) (w : TileWork) :
    (s.file w).1.slots = s.slots.setHandle w.tileX w.tileY w.passIdx (some (s.file w).2) ∧
      (s.file w).1.work.get =
        (fun k => if k = (s.file w).2 then some w
          else (s.retirePasses w.tileX w.tileY [w.passIdx]).work.get k) := by
  have hslots := slots_retirePasses s w.tileX w.tileY [w.passIdx]
  rw [file_eq]
  generalize s.retirePasses w.tileX w.tileY [w.passIdx] = t at hslots ⊢
  refine ⟨?_, slab_insert_get t.work w⟩
  simp only [store, hslots]

theorem stamped_bump (hs : Stamped s.slots s.work.get epoch filed) (x y : UInt8) :
    Stamped (s.bumpGenerationCollecting x y).1.slots (s.bumpGenerationCollecting x y).1.work.get
      (Function.update epoch (x, y) (epoch (x, y) + 1)) filed := by
  obtain ⟨hslots, hwork, -⟩ := bumpGenerationCollecting_spec s x y
  have hweak := hs.weaken (weakens_retirePasses s x y passIndices)
  rw [hslots, hwork]
  refine hweak.bump ?_
  intro k v hv ha hin
  exact retirePasses_free hv ha (fun hget => hs.held k v hget ha hin)
    ((mem_passIndices _).2 (hweak.pass k v hv ha))

theorem stamped_file (hs : Stamped s.slots s.work.get epoch filed) {w : TileWork}
    (hpass : w.passIdx.toNat < passSlots)
    (hgen : s.slots.InGrid w.tileX w.tileY → w.generation = wireGen (epoch w.tile)) :
    Stamped (s.file w).1.slots (s.file w).1.work.get epoch
      (Function.update filed (s.file w).2 (some (epoch w.tile))) := by
  obtain ⟨hslots, hget⟩ := file_spec s w
  have hweak := hs.weaken (weakens_retirePasses s w.tileX w.tileY [w.passIdx])
  rw [hslots, hget]
  refine hweak.file hpass hgen ?_
  intro k v hv ha hin
  exact file_free hv ha fun hget => hs.held k v hget ha hin

theorem nextGen_eq (hs : Stamped s.slots s.work.get epoch filed) {x y : UInt8}
    (hin : s.slots.InGrid x y) :
    (s.bumpGenerationCollecting x y).2.1 = wireGen (epoch (x, y) + 1) := by
  obtain ⟨t, ht⟩ := SlotMap.slot_of_inGrid hin
  rw [(bumpGenerationCollecting_spec s x y).2.2, SlotMap.bumpGeneration, ht, Option.map_some,
    getD_some, ← wireGen_succ, ← hs.gen x y t ht]
  rfl

theorem generation_eq (hs : Stamped s.slots s.work.get epoch filed) {x y : UInt8}
    (hin : s.slots.InGrid x y) : s.slots.generation x y = wireGen (epoch (x, y)) := by
  obtain ⟨t, ht⟩ := SlotMap.slot_of_inGrid hin
  rw [SlotMap.generation, ht, Option.map_some, Option.getD_some, hs.gen x y t ht]

theorem slots_markAcked (s : Scheduler) (x y gen p : UInt8) :
    (s.markAcked x y gen p).slots = s.slots := by
  unfold markAcked
  split <;> rfl

end Scheduler

/-! ### The passes of an encoding -/

namespace Scheduler

theorem mem_subsetPasses {mask : UInt16} {q : UInt8 × Bytes} (ps : List ℕ) :
    ∀ payloads, q ∈ subsetPasses mask ps payloads → ∃ p ∈ ps, q.1 = .ofNat p ∧ hasBit mask p := by
  induction ps with
  | nil => exact nofun
  | cons p ps ih =>
    intro payloads hq
    unfold subsetPasses at hq
    split at hq
    · obtain ⟨p', hp', he⟩ := ih payloads hq
      exact ⟨p', mem_cons_of_mem _ hp', he⟩
    · rename_i hbit
      cases payloads with
      | nil => cases hq
      | cons payload rest =>
        rcases mem_cons.1 hq with rfl | hq
        · exact ⟨p, mem_cons_self, rfl, decide_eq_true hbit⟩
        · obtain ⟨p', hp', he⟩ := ih rest hq
          exact ⟨p', mem_cons_of_mem _ hp', he⟩

/-- The items filed for a mask of the tile's passes. -/
theorem subsetItems_spec {x y gen : UInt8} {mask : UInt16} {payloads : List Bytes} {now : Instant}
    {w : TileWork} (hmask : mask.toNat < 2 ^ passSlots)
    (hw : w ∈ subsetItems x y gen mask payloads now) :
    w.tileX = x ∧ w.tileY = y ∧ w.generation = gen ∧ w.passIdx.toNat < passSlots := by
  obtain ⟨q, hq, rfl⟩ := mem_map.1 hw
  obtain ⟨p, hp, hqp, hbit⟩ := mem_subsetPasses _ _ hq
  have hp16 : p < 16 := mem_range.1 hp
  refine ⟨rfl, rfl, rfl, ?_⟩
  have hlt : p < passSlots := by
    by_contra hge
    rw [hasBit_eq mask hp16] at hbit
    have hpow : 2 ^ passSlots ≤ 2 ^ p := Nat.pow_le_pow_right (by decide) (by omega)
    rw [Nat.testBit_lt_two_pow (by omega)] at hbit
    cases hbit
  show q.1.toNat < passSlots
  rw [hqp, UInt8.toNat_ofNat_of_lt' (by simp only [UInt8.size]; omega)]
  exact hlt

end Scheduler

namespace TileBridge

theorem subsetMask_lt {passes : List (UInt8 × Bytes)} (hp : ∀ q ∈ passes, q.1.toNat < passSlots) :
    (subsetMask passes).toNat < 2 ^ passSlots := by
  have hfold : ∀ (l : List (UInt8 × Bytes)) (acc : UInt16), (∀ q ∈ l, q.1.toNat < passSlots) →
      acc.toNat < 2 ^ passSlots →
      (l.foldl (fun acc q => acc ||| ((1 : UInt16) <<< q.1.toUInt16)) acc).toNat <
          2 ^ passSlots := by
    intro l
    induction l with
    | nil => exact fun acc _ hacc => hacc
    | cons q l ih =>
      intro acc hl hacc
      have hq := hl q mem_cons_self
      refine ih _ (fun q' hq' => hl q' (mem_cons_of_mem _ hq')) ?_
      have hq16 : q.1.toNat < 16 := lt_trans hq (by decide)
      have hcast : q.1.toUInt16 = UInt16.ofNat q.1.toNat := by simp
      rw [UInt16.toNat_or, hcast, toNat_one_shiftLeft hq16]
      exact Nat.or_lt_two_pow hacc (Nat.pow_lt_pow_right (by decide) hq)
  exact hfold passes 0 hp (by decide)

theorem onlyUnacked_pass_lt {enc : Cdf53Encoded} {unacked : UInt16} {q : UInt8 × Bytes}
    (hq : q ∈ onlyUnacked enc unacked) : q.1.toNat < passSlots :=
  enc.pass_lt q (mem_filter.1 hq).1

end TileBridge

/-! ### Every step keeps the items of the current generation -/

namespace BridgeRun

variable {r : BridgeRun} {w : TileWork} {x y : UInt8}

/-- The scheduler of a run is in step with what the observer knows. -/
def InStep (r : BridgeRun) : Prop :=
  Stamped r.bridge.scheduler.slots r.bridge.scheduler.work.get r.epoch r.filed

theorem InStep.congr (h : r.InStep) {b : TileBridge} (hb : b.scheduler = r.bridge.scheduler) :
    { r with bridge := b }.InStep := by
  unfold InStep
  rw [hb]
  exact h

-- Unfolding first: comparing the two runs field by field would unfold the whole bump.
theorem scheduler_bump (r : BridgeRun) (x y : UInt8) :
    (r.bump x y).bridge.scheduler = (r.bridge.scheduler.bumpGenerationCollecting x y).1 := by
  simp only [bump, bumpGeneration, settleSupersededPalettes]

theorem epoch_bump (r : BridgeRun) (x y : UInt8) :
    (r.bump x y).epoch = Function.update r.epoch (x, y) (r.epoch (x, y) + 1) := by
  simp only [bump]

theorem filed_bump (r : BridgeRun) (x y : UInt8) : (r.bump x y).filed = r.filed := by
  simp only [bump]

theorem InStep.bump (h : r.InStep) (x y : UInt8) : (r.bump x y).InStep := by
  unfold InStep
  rw [scheduler_bump, epoch_bump, filed_bump]
  exact Scheduler.stamped_bump h x y

theorem InStep.enqueue (h : r.InStep) {now : Instant} (hpass : w.passIdx.toNat < passSlots)
    (hgen : r.bridge.scheduler.slots.InGrid w.tileX w.tileY →
      w.generation = wireGen (r.epoch w.tile)) : (r.enqueue w now).InStep :=
  Scheduler.stamped_file (w := w.queued now) h hpass hgen

theorem InStep.refine (h : r.InStep) (hpass : w.passIdx.toNat < passSlots)
    (hgen : r.bridge.scheduler.slots.InGrid w.tileX w.tileY →
      w.generation = wireGen (r.epoch w.tile)) : (r.refine w).InStep :=
  Scheduler.stamped_file h hpass hgen

/-- The items of a list belong to the current generation of a tile. -/
def Fits (r : BridgeRun) (x y : UInt8) (ws : List TileWork) : Prop :=
  ∀ w ∈ ws, w.tile = (x, y) ∧ w.passIdx.toNat < passSlots ∧
    (r.bridge.scheduler.slots.InGrid x y → w.generation = wireGen (r.epoch (x, y)))

theorem Fits.tail {ws : List TileWork} (hfits : r.Fits x y (w :: ws)) :
    (r.refine w).Fits x y ws := by
  intro v hv
  obtain ⟨ht, hp, hg⟩ := hfits v (mem_cons_of_mem _ hv)
  exact ⟨ht, hp, fun hin => hg ((Scheduler.inGrid_fileRefinement _ w x y).1 hin)⟩

theorem InStep.refine_foldl (ws : List TileWork) :
    ∀ {r : BridgeRun}, r.InStep → r.Fits x y ws → (ws.foldl BridgeRun.refine r).InStep := by
  induction ws with
  | nil => exact fun h _ => h
  | cons w ws ih =>
    intro r h hfits
    obtain ⟨htile, hpass, hgen⟩ := hfits w mem_cons_self
    have htile' := htile
    obtain ⟨hx, hy⟩ := Prod.mk.inj htile'
    refine ih (h.refine hpass ?_) hfits.tail
    rw [htile, hx, hy]
    exact hgen

/-- The items of a new generation belong to it. -/
theorem fits_subsetItems {gen : UInt8} {mask : UInt16} {payloads : List Bytes} {now : Instant}
    (hmask : mask.toNat < 2 ^ passSlots)
    (hgen : r.bridge.scheduler.slots.InGrid x y → gen = wireGen (r.epoch (x, y))) :
    r.Fits x y (Scheduler.subsetItems x y gen mask payloads now) := by
  intro w hw
  obtain ⟨hx, hy, hg, hp⟩ := Scheduler.subsetItems_spec hmask hw
  refine ⟨by rw [tile, hx, hy], hp, ?_⟩
  rw [hg]
  exact hgen

theorem fits_strandedItems (h : r.InStep) (enc : Cdf53Encoded) (now : Instant) :
    r.Fits x y (strandedItems r.bridge x y enc now) := by
  unfold strandedItems
  simp only
  split
  · exact nofun
  · split
    · exact nofun
    · exact fits_subsetItems (subsetMask_lt fun q hq => onlyUnacked_pass_lt hq)
        (Scheduler.generation_eq h)

theorem inGrid_bump : (r.bump x y).bridge.scheduler.slots.InGrid x y ↔
    r.bridge.scheduler.slots.InGrid x y := by
  rw [scheduler_bump, (Scheduler.bumpGenerationCollecting_spec r.bridge.scheduler x y).1]
  simp [SlotMap.InGrid, SlotMap.bumpGeneration]

theorem nextGen_bump (h : r.InStep)
    (hin : (r.bump x y).bridge.scheduler.slots.InGrid x y) :
    r.nextGen x y = wireGen ((r.bump x y).epoch (x, y)) := by
  rw [nextGen, Scheduler.nextGen_eq h (inGrid_bump.1 hin), epoch_bump, Function.update_self]

/-! ### Drains and acknowledgements -/

theorem scheduler_emit (args : DrainArgs) (frame : ℕ) (r : BridgeRun) (e : SentWork) :
    (emit args frame r e).bridge.scheduler =
      (r.bridge.scheduler.frameLabel e.work.tileX e.work.tileY args.seq).1 := by
  show (emitWork args r.bridge e).scheduler = _
  unfold emitWork
  split <;> rfl

theorem InStep.emit (h : r.InStep) (args : DrainArgs) (frame : ℕ) (e : SentWork) :
    (BridgeRun.emit args frame r e).InStep := by
  unfold InStep
  rw [scheduler_emit]
  exact h.modifySlot e.work.tileX e.work.tileY (fun _ => rfl) (fun _ => rfl)

theorem InStep.ticked (h : r.InStep) (args : DrainArgs) (frame : ℕ) :
    (r.ticked args frame).InStep := by
  have hitems := (Scheduler.tick_items r.bridge.scheduler args.budget args.share args.now
    (holdsPass r.bridge.emitter)).1
  show Stamped (r.bridge.tick args).1.slots (r.bridge.tick args).1.work.get r.epoch r.filed
  refine h.of_active ?_
  intro k w' hw' ha
  obtain ⟨v, hv, rfl | ⟨hact, rfl⟩⟩ := hitems k w' hw'
  · exact ⟨w', hv, ha, rfl, rfl⟩
  · exact ⟨v, hv, hact, rfl, rfl⟩

theorem InStep.emit_foldl (args : DrainArgs) (frame : ℕ) (out : List SentWork) :
    ∀ {r : BridgeRun}, r.InStep → (out.foldl (BridgeRun.emit args frame) r).InStep := by
  induction out with
  | nil => exact fun h => h
  | cons e out ih => exact fun h => ih (h.emit args frame e)

end BridgeRun

namespace TileBridge

/-- An invariant of the two scheduler operations of an acknowledgement. -/
theorem scheduler_creditCoverage {P : Scheduler → Prop}
    (hmark : ∀ s x y gen p, P s → P (Scheduler.markAcked s x y gen p))
    (hrecord : ∀ s x y gen p, P s → P (Scheduler.recordCdf53Ack s x y gen p)) {b : TileBridge}
    (h : P b.scheduler) (c : FragmentCoverage) : P (b.creditCoverage c).scheduler := by
  have hm := hmark b.scheduler c.tileX c.tileY c.generation c.passIdx h
  unfold creditCoverage
  cases c.codec with
  | cdf53 => exact hrecord _ _ _ _ _ hm
  | _ => exact hm

/-- **An invariant of the two scheduler operations of an acknowledgement is one of a whole
batch.** -/
theorem scheduler_dispatchAck {P : Scheduler → Prop}
    (hmark : ∀ s x y gen p, P s → P (Scheduler.markAcked s x y gen p))
    (hrecord : ∀ s x y gen p, P s → P (Scheduler.recordCdf53Ack s x y gen p)) (keys : List EmitKey)
    {b : TileBridge} (h : P b.scheduler) : P (b.dispatchAck keys).scheduler := by
  have hcredit : ∀ (l : CoverageList) (b : TileBridge), P b.scheduler →
      P (l.foldl creditCoverage b).scheduler := by
    intro l
    induction l with
    | nil => exact fun b h => h
    | cons c l ih => exact fun b h => ih _ (scheduler_creditCoverage hmark hrecord h c)
  have hkeys : ∀ (l : List EmitKey) (b : TileBridge), P b.scheduler →
      P (l.foldl applyAckCoverage b).scheduler := by
    intro l
    induction l with
    | nil => exact fun b h => h
    | cons key l ih =>
      intro b h
      refine ih _ ?_
      unfold applyAckCoverage
      split
      · exact h
      · exact hcredit _ _ h
  exact hkeys keys _ h

end TileBridge

namespace BridgeRun

variable {r : BridgeRun}

theorem InStep.ack (h : r.InStep) (ds : List Departure) : (r.ack ds).InStep := by
  have hack := scheduler_dispatchAck
    (P := fun s => Stamped s.slots s.work.get r.epoch r.filed) ?_ ?_ (ds.map Departure.key) h
  · exact hack
  · intro s x y gen p hs
    rw [Scheduler.slots_markAcked]
    exact hs.weaken (Scheduler.weakens_markAcked s x y gen p)
  · intro s x y gen p hs
    refine hs.modifySlot x y ?_ ?_
    · intro t
      split <;> rfl
    · intro t
      split <;> rfl

/-- **Every step keeps the scheduler in step with what the observer knows.** -/
theorem InStep.step (h : r.InStep) (op : BridgeOp) : (r.step op).InStep := by
  cases op with
  | dispatchTile x y codec payload now =>
    have hcancel : (r.cancel x y).InStep := h.congr rfl
    refine (hcancel.bump x y).enqueue (by decide : (0 : UInt8).toNat < passSlots) ?_
    intro hin
    simp only [singlePass, tile] at hin ⊢
    exact nextGen_bump hcancel hin
  | supersedeTile x y =>
    have hcancel : (r.cancel x y).InStep := h.congr rfl
    exact hcancel.bump x y
  | enqueueCdf53Generation x y enc now =>
    have hcancel : (r.withEmitter (r.bridge.emitter.cancelForTile (x, y))).InStep := h.congr rfl
    refine InStep.refine_foldl _ (hcancel.bump x y) (fits_subsetItems enc.present_lt ?_)
    intro hin
    exact nextGen_bump hcancel hin
  | strandedReenqueue x y enc now =>
    exact InStep.refine_foldl _ h (fits_strandedItems h enc now)
  | drain frame timestampUs maxFrag budget share now =>
    exact InStep.emit_foldl _ _ _ (h.ticked _ _)
  | ack places => exact h.ack _
  | onNack | tickBudgeted | retire => exact h.congr rfl

theorem inStep_start (cols rows capacity : ℕ) (now : Instant) :
    (start cols rows capacity now).InStep := by
  refine ⟨?_, nofun, nofun, nofun⟩
  intro x y t ht
  obtain ⟨i, _, ht⟩ := bind_eq_some_iff.1 ht
  obtain ⟨_, rfl⟩ := List.getElem?_eq_some_iff.1 ht
  simp [start, Scheduler.new, SlotMap.new, wireGen]

/-! ### What a drain sends -/

/-- An item sent is of a pass the tile has, and from a tile of the grid it is of the tile's current
generation. -/
structure Fresh (r : BridgeRun) (e : SentWork) : Prop where
  pass : e.work.passIdx.toNat < passSlots
  current : r.bridge.scheduler.slots.InGrid e.work.tileX e.work.tileY →
    r.filed e.handle = some (r.epoch e.work.tile) ∧
      e.work.generation = wireGen (r.epoch e.work.tile)

theorem Fresh.emit {e e' : SentWork} (hfresh : r.Fresh e') (args : DrainArgs) (frame : ℕ) :
    (BridgeRun.emit args frame r e).Fresh e' := by
  refine ⟨hfresh.pass, ?_⟩
  intro hin
  rw [scheduler_emit] at hin
  refine hfresh.current ?_
  simpa [SlotMap.InGrid, Scheduler.frameLabel, SlotMap.labelOrAssign] using hin

/-- **What a tick sends is fresh.** -/
theorem fresh_of_tick (h : r.InStep) (args : DrainArgs) (frame : ℕ) {e : SentWork}
    (he : e ∈ (r.bridge.tick args).2) : (r.ticked args frame).Fresh e := by
  obtain ⟨v, hv, ha, hwork⟩ :=
    (Scheduler.tick_items r.bridge.scheduler args.budget args.share args.now
      (holdsPass r.bridge.emitter)).2 e he
  constructor
  · rw [hwork]
    exact h.pass e.handle v hv ha
  · intro hin
    have hin' : r.bridge.scheduler.slots.InGrid v.tileX v.tileY := by
      rw [hwork] at hin
      exact hin
    rw [hwork]
    exact h.current e.handle v hv ha hin'

/-- What the tick of a drain establishes and each of its items keeps. -/
theorem drain_inv {I : BridgeRun → Prop} {args : DrainArgs} {frame : ℕ}
    (hemit : ∀ {r e}, I r → r.Fresh e → I (BridgeRun.emit args frame r e)) (hs : r.InStep)
    (hticked : I (r.ticked args frame)) : I (r.drain args frame) := by
  suffices h : ∀ (out : List SentWork) {r : BridgeRun}, I r → (∀ e ∈ out, r.Fresh e) →
      I (out.foldl (BridgeRun.emit args frame) r) from
    h _ hticked fun e he => fresh_of_tick hs args frame he
  intro out
  induction out with
  | nil => exact fun h _ => h
  | cons e out ih =>
    intro r h hfresh
    refine ih (hemit h (hfresh e mem_cons_self)) ?_
    exact fun e' he' => (hfresh e' (mem_cons_of_mem _ he')).emit args frame

end BridgeRun

end Ghostframe.Transport
