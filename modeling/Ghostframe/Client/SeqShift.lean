import Ghostframe.Client.FrameAcks
import Ghostframe.Client.GateSound
import Ghostframe.Client.Routing

/-!
# Turning the frame numbers

Frame numbers are 31 bits and wrap. Here a whole history of the H.264 path is moved
along the circle, every `frameSeq` and `refFrameSeq` by the same amount.

* `H264Gate.onFrame_turn`, `FrameAckWindow.record_turn`: the gate and the
  acknowledgement window cannot tell the difference;
* `Turned`: two cores, the second one fed the turned history;
* `h264_turn_invariant`: the events and the acknowledged outcomes turn along, if no
  frame number passes the end of the circle or all of them do. The assemblies are
  filtered and evicted by the plain order of the numbers, so a stream that passes the
  end is cut off (`frame_dropped_past_the_end`).
-/

namespace Ghostframe.Client

open Protocol Serial ClientCore Dict List Option UInt32

/-- A header with its frame numbers turned; `refFrameNone` is not a number. -/
def turnHeader (t : Turning) (h : FrameHeader) : FrameHeader :=
  { h with
    frameSeq := t h.frameSeq
    refFrameSeq := if h.refFrameSeq = refFrameNone then refFrameNone else t h.refFrameSeq }

/-- The turning does not make the header name nothing. -/
def KeepsRef (t : Turning) (h : FrameHeader) : Prop :=
  h.refFrameSeq ≠ refFrameNone → t h.refFrameSeq ≠ refFrameNone

theorem turnHeader_ref_of_ne {h : FrameHeader} (hne : h.refFrameSeq ≠ refFrameNone) (t : Turning) :
    (turnHeader t h).refFrameSeq = t h.refFrameSeq := if_neg hne

theorem turnHeader_ref_eq_none {t : Turning} {h : FrameHeader} (hkeeps : KeepsRef t h) :
    (turnHeader t h).refFrameSeq = refFrameNone ↔ h.refFrameSeq = refFrameNone := by
  by_cases hne : h.refFrameSeq = refFrameNone
  · exact iff_of_true (if_pos hne) hne
  · rw [turnHeader_ref_of_ne hne]
    exact iff_of_false (hkeeps hne) hne

theorem seqAfter_turn (t : Turning) (x y : UInt32) : seqAfter (t x) (t y) = seqAfter x y := by
  show (decide (ahead (t x) (t y) ≠ 0) && decide (ahead (t x) (t y) < 2 ^ 30)) =
    (decide (ahead x y ≠ 0) && decide (ahead x y < 2 ^ 30))
  rw [t.ahead_eq]

/-! ### The gate -/

namespace H264Gate

/-- A gate with its frame numbers turned. -/
def turned (t : Turning) (g : H264Gate) : H264Gate :=
  { g with
    good := g.good.map t
    lt := (g.lt.1.map t, g.lt.2.map t)
    newestRef := g.newestRef.map t
    lastFed := g.lastFed.map t
    fed := g.fed.map t
    request := g.request.map fun r => (r.1, t r.2) }

variable (t : Turning) (g : H264Gate)

theorem pacedRequest_turn (reason : ResetReason) (seq : UInt32) (nowUs : ℕ) :
    (g.turned t).pacedRequest reason (t seq) nowUs =
      (g.pacedRequest reason seq nowUs).turned t := by
  cases reason <;> unfold pacedRequest turned <;> dsimp only <;> split_ifs <;> rfl

theorem reset_turn (cause : ResetCause) (seq : UInt32) (nowUs : ℕ) :
    (g.turned t).reset cause (t seq) nowUs = (g.reset cause seq nowUs).turned t := by
  cases cause with
  | idrReceived => rfl
  | resolution => rfl
  | decoderFailure =>
    exact pacedRequest_turn t { g.forget with waitingForIdr := true } .decoderFailure seq nowUs
  | noDecoder =>
    unfold reset turned
    dsimp only [forget]
    split_ifs <;> rfl

variable {h : FrameHeader} (seq : UInt32)

theorem noteFed_turn : (g.turned t).noteFed (t seq) = (g.noteFed seq).turned t := by
  unfold noteFed turned
  simp only [length_append, length_map, length_singleton]
  split_ifs <;> simp

theorem refuse_turn (cause : RefuseCause) (seq : UInt32) (nowUs : ℕ) :
    (g.turned t).refuse cause (t seq) nowUs =
      ((g.refuse cause seq nowUs).1.turned t, (g.refuse cause seq nowUs).2) := by
  have hno : (g.turned t).noDecoder = g.noDecoder := rfl
  have hacked : (g.turned t).ackedRefStream = g.ackedRefStream := rfl
  have hsince : (g.turned t).refusingSinceUs = g.refusingSinceUs := rfl
  unfold refuse
  simp only [hno, hacked, hsince]
  split_ifs
  · rfl
  · exact congrArg (fun g' => (g', Verdict.refuse cause))
      (pacedRequest_turn t { g with waitingForIdr := true
                                    refusingSinceUs := some (g.refusingSinceUs.getD nowUs) }
        .gateReset seq nowUs)
  · rfl
  · rfl

theorem wasFed_turn : (g.turned t).wasFed (t seq) = g.wasFed seq :=
  t.contains_map g.fed seq

theorem feedIdr_turn (nowUs : ℕ) :
    (g.turned t).feedIdr (t seq) nowUs = (g.feedIdr seq nowUs).turned t := by
  unfold feedIdr
  rw [reset_turn, noteFed_turn]
  simp [turned]

theorem setLt_turn (slot : ℕ) (seq : UInt32) :
    (g.turned t).setLt slot (t seq) = (g.setLt slot seq).turned t := by
  unfold setLt turned
  split_ifs <;> rfl

theorem ltAt_turn (slot : ℕ) : (g.turned t).ltAt slot = (g.ltAt slot).map t := by
  unfold ltAt turned
  split_ifs <;> rfl

variable {t g}

theorem holdsTarget_turn (hkeeps : KeepsRef t h) :
    (g.turned t).holdsTarget (turnHeader t h) = g.holdsTarget h := by
  have hnone := turnHeader_ref_eq_none hkeeps
  have hflags : (turnHeader t h).flags = h.flags := rfl
  have hslots : (turnHeader t h).slots = h.slots := rfl
  have hwaiting : (g.turned t).waitingForIdr = g.waitingForIdr := rfl
  have hnewest : (g.turned t).newestRef = g.newestRef.map t := rfl
  unfold holdsTarget
  dsimp only
  rw [hflags, hslots, hwaiting, hnewest, ltAt_turn]
  by_cases hne : h.refFrameSeq = refFrameNone
  · rw [hnone.2 hne, hne]
    simp
  · have hgood : (g.turned t).good.contains (t h.refFrameSeq) = g.good.contains h.refFrameSeq :=
      t.contains_map g.good h.refFrameSeq
    rw [turnHeader_ref_of_ne hne, hgood, if_neg (hkeeps hne), if_neg hne]
    simp only [t.map_eq_some, ne_eq, hne, hkeeps hne]

/-! The five steps of feeding a predicted frame. -/

/-- The frame is the newest one fed. -/
def noteLastFed (g : H264Gate) (seq : UInt32) : H264Gate :=
  { g with lastFed := some seq }.noteFed seq

/-- The frame joins the good ones. -/
def pushGood (g : H264Gate) (seq : UInt32) : H264Gate :=
  { g with
    good := if (g.good ++ [seq]).length > goodCap then (g.good ++ [seq]).drop 1
      else g.good ++ [seq] }

/-- The frame is a reference, and may mark itself. -/
def noteReference (g : H264Gate) (h : FrameHeader) : H264Gate :=
  if h.flags &&& frameFlagNonRef = 0 then
    if marks h then
      { g with newestRef := some h.frameSeq }.setLt (h.slots &&& 0x03).toNat h.frameSeq
    else { g with newestRef := some h.frameSeq }
  else g

/-- The frame marks the picture it predicts from. -/
def noteTarget (g : H264Gate) (h : FrameHeader) : H264Gate :=
  if marksTarget h && decide (h.refFrameSeq ≠ refFrameNone) then
    g.setLt (h.slots &&& 0x03).toNat h.refFrameSeq
  else g

/-- The gate has fed a frame. -/
def noteFeed (g : H264Gate) : H264Gate :=
  { g with refusingSinceUs := none, decoderResetPending := false }

theorem feedPredicted_eq (g : H264Gate) (h : FrameHeader) :
    g.feedPredicted h =
      (((((g.noteLastFed h.frameSeq).pushGood h.frameSeq).noteReference h).noteTarget h).noteFeed,
        .feed ((((g.noteLastFed h.frameSeq).pushGood h.frameSeq).noteReference h).noteTarget
          h).decoderResetPending) := rfl

theorem pushGood_turn : (g.turned t).pushGood (t seq) = (g.pushGood seq).turned t := by
  unfold pushGood turned
  simp only [length_append, length_map, length_singleton]
  split_ifs <;> simp

theorem noteReference_turn (h : FrameHeader) :
    (g.turned t).noteReference (turnHeader t h) = (g.noteReference h).turned t := by
  have hflags : (turnHeader t h).flags = h.flags := rfl
  have hmarks : marks (turnHeader t h) = marks h := rfl
  unfold noteReference
  rw [hflags, hmarks]
  split_ifs
  · exact setLt_turn t { g with newestRef := some h.frameSeq } _ _
  · rfl
  · rfl

theorem noteTarget_turn (hkeeps : KeepsRef t h) :
    (g.turned t).noteTarget (turnHeader t h) = (g.noteTarget h).turned t := by
  have htarget : marksTarget (turnHeader t h) = marksTarget h := rfl
  have hslots : (turnHeader t h).slots = h.slots := rfl
  unfold noteTarget
  simp only [htarget, hslots, ne_eq, turnHeader_ref_eq_none hkeeps]
  split_ifs with hmark
  · have hne : h.refFrameSeq ≠ refFrameNone := by
      rw [Bool.and_eq_true, decide_eq_true_eq] at hmark
      exact hmark.2
    rw [turnHeader_ref_of_ne hne]
    exact setLt_turn t g _ _
  · rfl

theorem feedPredicted_turn (hkeeps : KeepsRef t h) :
    (g.turned t).feedPredicted (turnHeader t h) =
      ((g.feedPredicted h).1.turned t, (g.feedPredicted h).2) := by
  have hseq : (turnHeader t h).frameSeq = t h.frameSeq := rfl
  have hfed : (g.turned t).noteLastFed (t h.frameSeq) = (g.noteLastFed h.frameSeq).turned t :=
    noteFed_turn t { g with lastFed := some h.frameSeq } h.frameSeq
  rw [feedPredicted_eq, feedPredicted_eq, hseq, hfed, pushGood_turn, noteReference_turn,
    noteTarget_turn hkeeps]
  rfl

theorem onFrame_turn (hkeeps : KeepsRef t h) (nowUs : ℕ) :
    (g.turned t).onFrame (turnHeader t h) nowUs =
      ((g.onFrame h nowUs).1.turned t, (g.onFrame h nowUs).2) := by
  have hflags : (turnHeader t h).flags = h.flags := rfl
  have hkey : (turnHeader t h).isKeyframe = h.isKeyframe := rfl
  have hseq : (turnHeader t h).frameSeq = t h.frameSeq := rfl
  have hslots : (turnHeader t h).slots = h.slots := rfl
  have hmarks : marks (turnHeader t h) = marks h := rfl
  have htarget : marksTarget (turnHeader t h) = marksTarget h := rfl
  have hga : (if usesAckedRef (turnHeader t h) then { g.turned t with ackedRefStream := true }
      else g.turned t) =
      (if usesAckedRef h then { g with ackedRefStream := true } else g).turned t := by
    have hacks : usesAckedRef (turnHeader t h) = usesAckedRef h := rfl
    rw [hacks]
    split_ifs <;> rfl
  unfold onFrame
  simp only [hga, hkey, hseq, hslots, hflags, hmarks, htarget]
  generalize (if usesAckedRef h then { g with ackedRefStream := true } else g) = ga
  have hstale : ((ga.turned t).lastFed.any fun l => !seqAfter (t h.frameSeq) l) =
      ga.lastFed.any fun l => !seqAfter h.frameSeq l := by
    show (ga.lastFed.map t).any _ = _
    cases ga.lastFed with
    | none => rfl
    | some l => simp only [map_some, any_some, seqAfter_turn]
  rw [hstale, holdsTarget_turn hkeeps, feedIdr_turn]
  split_ifs
  · rfl
  · rfl
  · exact refuse_turn t ga _ _ _
  · exact refuse_turn t ga _ _ _
  · cases ga.holdsTarget h with
    | none => exact refuse_turn t ga _ _ _
    | some held =>
      cases held with
      | false => exact refuse_turn t ga _ _ _
      | true => exact feedPredicted_turn hkeeps

end H264Gate

/-! ### The acknowledgement window -/

namespace FrameAckWindow

/-- A window with its newest frame turned; the masks are relative to it. -/
def turned (t : Turning) (w : FrameAckWindow) : FrameAckWindow :=
  { w with newest := w.newest.map t }

variable {t : Turning} {w : FrameAckWindow}

theorem set_turn (b : ℕ) (d : Bool) : (w.turned t).set b d = (w.set b d).turned t := by
  unfold set turned
  dsimp only
  split_ifs <;> rfl

theorem slid_turn (f : ℕ) (seq : UInt32) :
    { (w.turned t).slid f with newest := some (t seq) } =
      { w.slid f with newest := some seq }.turned t := by
  unfold slid turned
  split_ifs <;> rfl

theorem record_turn (seq : UInt32) (d : Bool) (nowUs : ℕ) :
    (w.turned t).record (t seq) d nowUs = (w.record seq d nowUs).turned t := by
  cases hw : w.newest with
  | none =>
    have hturned : (w.turned t).newest = none := congrArg (Option.map t) hw
    rw [record_none hw, record_none hturned]
    exact congrArg (fun w' => touched w' nowUs)
      (set_turn (w := { w with newest := some seq, decoded := 0, refused := 0 }) 0 d)
  | some s =>
    have hturned : (w.turned t).newest = some (t s) := congrArg (Option.map t) hw
    rw [record_some hw, record_some hturned, t.ahead_eq, t.ahead_eq, set_turn, slid_turn, set_turn,
      set_turn]
    split_ifs <;> rfl

end FrameAckWindow

/-! ### Plain order -/

/-- The turning moves the word by `δ` in the plain order. -/
def Moves (t : Turning) (δ : ℤ) (s : UInt32) : Prop := ((t s).toNat : ℤ) = s.toNat + δ

section Order

variable {t : Turning} {δ : ℤ} {x y : UInt32}

theorem Moves.le_iff (hx : Moves t δ x) (hy : Moves t δ y) : t x ≤ t y ↔ x ≤ y := by
  unfold Moves at hx hy
  rw [le_iff_toNat_le, le_iff_toNat_le]
  omega

theorem Moves.lt_iff (hx : Moves t δ x) (hy : Moves t δ y) : t x < t y ↔ x < y := by
  unfold Moves at hx hy
  rw [lt_iff_toNat_lt, lt_iff_toNat_lt]
  omega

theorem Moves.below_iff (hx : Moves t δ x) (hy : Moves t δ y) :
    (t x).toNat < (t y).toNat - 2 ↔ x.toNat < y.toNat - 2 := by
  unfold Moves at hx hy
  omega

end Order

/-! ### The newest IDR assembly -/

/-- The fold that looks for the largest number. -/
theorem foldl_newest (l : List UInt32) :
    l.foldl (fun newest seq => some ((newest.map fun n => max n seq).getD seq)) none = l.max? := by
  have hsome : ∀ (l : List UInt32) (a : UInt32),
      l.foldl (fun newest seq => some ((newest.map fun n => max n seq).getD seq)) (some a) =
        some (l.foldl max a) := by
    intro l
    induction l with
    | nil => exact fun _ => rfl
    | cons x l ih => exact fun a => ih (max a x)
  cases l with
  | nil => rfl
  | cons x l => exact hsome l x

/-- An IDR is being assembled under this number. -/
def IdrAt (c : ClientCore) (s : UInt32) : Prop :=
  ∃ a, c.frameAssemblies.get? s = some a ∧ a.header.isKeyframe = true

theorem mem_idrs_iff (c : ClientCore) (s : UInt32) :
    s ∈ ((c.frameAssemblies.toList.filter fun e => e.2.header.isKeyframe).map fun e => e.1) ↔
      IdrAt c s := by
  unfold IdrAt
  simp only [List.mem_map, List.mem_filter, Dict.toList, Dict.get?_eq_some_iff]
  constructor
  · rintro ⟨e, ⟨⟨⟨s', a⟩, hmem, rfl⟩, hkey⟩, rfl⟩
    exact ⟨a, hmem, hkey⟩
  · rintro ⟨a, hmem, hkey⟩
    exact ⟨(s, a), ⟨⟨⟨s, a⟩, hmem, rfl⟩, hkey⟩, rfl⟩

instance lawfulOrderMax : Std.LawfulOrderMax UInt32 where
  max_le_iff a b c := by
    change (if a ≤ b then b else a) ≤ c ↔ _
    split_ifs <;> simp only [UInt32.le_iff_toNat_le] at * <;> omega
  max_eq_or a b := by
    change (if a ≤ b then b else a) = a ∨ (if a ≤ b then b else a) = b
    split_ifs
    · exact .inr rfl
    · exact .inl rfl

theorem newestIdrAssembly_eq_some_iff (c : ClientCore) (m : UInt32) :
    c.newestIdrAssembly = some m ↔ IdrAt c m ∧ ∀ s, IdrAt c s → s.toNat ≤ m.toNat := by
  rw [newestIdrAssembly, foldl_newest, max?_eq_some_iff]
  simp only [mem_idrs_iff, le_iff_toNat_le]

theorem newestIdrAssembly_eq_none_iff (c : ClientCore) :
    c.newestIdrAssembly = none ↔ ∀ s, ¬IdrAt c s := by
  rw [newestIdrAssembly, foldl_newest, max?_eq_none_iff,
    eq_nil_iff_forall_not_mem]
  simp only [mem_idrs_iff]

/-! ### Two cores -/

/-- An assembly with its header turned. -/
def turnAssembly (t : Turning) (a : FrameAssembly) : FrameAssembly :=
  { a with header := turnHeader t a.header }

/-- The core `c'` has seen what `c` has seen, turned. Both count the newest frame from zero, so
before the first frame that number is not turned. -/
structure Turned (t : Turning) (δ : ℤ) (c c' : ClientCore) : Prop where
  gate : c'.h264Gate = c.h264Gate.turned t
  acks : c'.frameAcks = c.frameAcks.turned t
  broken : c'.decoderBroken = c.decoderBroken
  epoch : c'.decoderEpochStart = c.decoderEpochStart.map t
  lastFed : ∀ s ∈ c.h264Gate.lastFed, Moves t δ s
  assemblies : ∀ s, c'.frameAssemblies.get? (t s) = (c.frameAssemblies.get? s).map (turnAssembly t)
  onto : ∀ s' a', c'.frameAssemblies.get? s' = some a' → ∃ s, s' = t s
  held : ∀ s a, c.frameAssemblies.get? s = some a →
    Moves t δ s ∧ a.header.frameSeq = s ∧ KeepsRef t a.header
  window : (c'.latestFullFrameSeq = t c.latestFullFrameSeq ∧ Moves t δ c.latestFullFrameSeq) ∨
    (c.latestFullFrameSeq = 0 ∧ c'.latestFullFrameSeq = 0 ∧ c.h264Gate.lastFed = none ∧
      ∀ s, c.frameAssemblies.get? s = none)

variable {t : Turning} {δ : ℤ} {c c' : ClientCore}

/-- What the H.264 path reads of a core. -/
def h264Path (c : ClientCore) :=
  (c.h264Gate, c.frameAcks, c.decoderBroken, c.decoderEpochStart, c.frameAssemblies,
    c.latestFullFrameSeq)

namespace Turned

/-- A core in which nothing of the H.264 path has changed. -/
theorem congr {d d' : ClientCore} (h : Turned t δ c c') (hd : h264Path d = h264Path c)
    (hd' : h264Path d' = h264Path c') : Turned t δ d d' := by
  cases c
  cases c'
  cases d
  cases d'
  simp only [h264Path, Prod.mk.injEq] at hd hd'
  obtain ⟨rfl, rfl, rfl, rfl, rfl, rfl⟩ := hd
  obtain ⟨rfl, rfl, rfl, rfl, rfl, rfl⟩ := hd'
  exact { h with }

theorem idrAt (h : Turned t δ c c') (s : UInt32) : IdrAt c' (t s) ↔ IdrAt c s := by
  unfold IdrAt
  rw [h.assemblies]
  constructor
  · rintro ⟨a', ha', hkey⟩
    obtain ⟨a, ha, rfl⟩ := map_eq_some_iff.1 ha'
    exact ⟨a, ha, hkey⟩
  · rintro ⟨a, ha, hkey⟩
    exact ⟨turnAssembly t a, by rw [ha]; rfl, hkey⟩

/-- Both cores exempt the same IDR. -/
theorem newestIdrAssembly (h : Turned t δ c c') :
    c'.newestIdrAssembly = c.newestIdrAssembly.map t := by
  have hmoves : ∀ s, IdrAt c s → Moves t δ s := fun s ⟨a, ha, _⟩ => (h.held s a ha).1
  cases hn : c.newestIdrAssembly with
  | none =>
    rw [map_none, newestIdrAssembly_eq_none_iff]
    rw [newestIdrAssembly_eq_none_iff] at hn
    intro s' hs'
    obtain ⟨a', ha', -⟩ := id hs'
    obtain ⟨s, rfl⟩ := h.onto s' a' ha'
    exact hn s ((h.idrAt s).1 hs')
  | some m =>
    rw [map_some, newestIdrAssembly_eq_some_iff]
    rw [newestIdrAssembly_eq_some_iff] at hn
    refine ⟨(h.idrAt m).2 hn.1, fun s' hs' => ?_⟩
    obtain ⟨a', ha', -⟩ := id hs'
    obtain ⟨s, rfl⟩ := h.onto s' a' ha'
    have hs := (h.idrAt s).1 hs'
    have hle := hn.2 s hs
    have h1 := hmoves s hs
    have h2 := hmoves m hn.1
    unfold Moves at h1 h2
    omega

theorem windowThreshold_le (h : Turned t δ c c') {s : UInt32} {a : FrameAssembly}
    (hs : c.frameAssemblies.get? s = some a) :
    c'.windowThreshold ≤ (t s).toNat ↔ c.windowThreshold ≤ s.toNat := by
  unfold windowThreshold
  rcases h.window with ⟨hlatest, hmoves⟩ | ⟨-, -, -, hnone⟩
  · have h1 := (h.held s a hs).1
    unfold Moves at h1 hmoves
    rw [hlatest]
    omega
  · rw [hnone s] at hs
    cases hs

/-- Both cores evict the same assemblies. -/
theorem evictStaleFrameAssemblies (h : Turned t δ c c') (nowUs : ℕ) :
    Turned t δ (c.evictStaleFrameAssemblies nowUs) (c'.evictStaleFrameAssemblies nowUs) := by
  have hkeep : (c'.newestIdrAssembly.filter fun seq =>
      (c'.frameAssemblies.get? seq).any fun a => a.isExempt nowUs) =
      (c.newestIdrAssembly.filter fun seq =>
        (c.frameAssemblies.get? seq).any fun a => a.isExempt nowUs).map t := by
    rw [h.newestIdrAssembly]
    cases c.newestIdrAssembly with
    | none => rfl
    | some m =>
      have hexempt : (c'.frameAssemblies.get? (t m)).any (fun a => a.isExempt nowUs) =
          (c.frameAssemblies.get? m).any fun a => a.isExempt nowUs := by
        rw [h.assemblies]
        cases c.frameAssemblies.get? m <;> rfl
      simp only [map_some, filter_some, hexempt]
      split_ifs <;> rfl
  have hget : ∀ s, (c'.evictStaleFrameAssemblies nowUs).frameAssemblies.get? (t s) =
      ((c.evictStaleFrameAssemblies nowUs).frameAssemblies.get? s).map (turnAssembly t) := by
    intro s
    unfold ClientCore.evictStaleFrameAssemblies
    rw [get?_retain, get?_retain, h.assemblies, hkeep]
    cases hs : c.frameAssemblies.get? s with
    | none => rfl
    | some a =>
      have hle := h.windowThreshold_le hs
      have hsame : ∀ o : Option UInt32, some (t s) = o.map t ↔ some s = o := fun o => by
        rw [eq_comm, t.map_eq_some, eq_comm]
      simp only [map_some, filter_some, hle, hsame]
      split_ifs <;> rfl
  have hsub : ∀ s a, (c.evictStaleFrameAssemblies nowUs).frameAssemblies.get? s = some a →
      c.frameAssemblies.get? s = some a := fun s a hs =>
    ((get?_retain_eq_some _ _ _ _).1 hs).1
  exact
    { h with
      assemblies := hget
      onto := fun s' a' hs' => h.onto s' a' ((get?_retain_eq_some _ _ _ _).1 hs').1
      held := fun s a hs => h.held s a (hsub s a hs)
      window := by
        rcases h.window with hset | ⟨h0, h0', hfed, hnone⟩
        · exact .inl hset
        · refine .inr ⟨h0, h0', hfed, fun s => ?_⟩
          rw [eq_none_iff_forall_ne_some]
          intro a hs
          have hbefore := hsub s a hs
          rw [hnone s] at hbefore
          cases hbefore }

theorem idrFragmentIsExempt (h : Turned t δ c c') {fh : FrameHeader}
    (hmoves : Moves t δ fh.frameSeq) (nowUs : ℕ) :
    c'.idrFragmentIsExempt (turnHeader t fh) nowUs = c.idrFragmentIsExempt fh nowUs := by
  have hkey : (turnHeader t fh).isKeyframe = fh.isKeyframe := rfl
  have hseq : (turnHeader t fh).frameSeq = t fh.frameSeq := rfl
  unfold ClientCore.idrFragmentIsExempt
  rw [hkey, hseq, h.assemblies, h.newestIdrAssembly]
  split_ifs
  · rfl
  · cases c.frameAssemblies.get? fh.frameSeq with
    | some a =>
      simp only [map_some, t.map_eq_some]
      rfl
    | none =>
      cases hn : c.newestIdrAssembly with
      | none => rfl
      | some m =>
        obtain ⟨⟨a, ha, -⟩, -⟩ := (newestIdrAssembly_eq_some_iff c m).1 hn
        simp only [map_none, map_some, all_some,
          ((h.held m a ha).1).lt_iff hmoves]

/-- Both cores find the same fragments of no use. -/
theorem isMoot (h : Turned t δ c c') {fh : FrameHeader} (hmoves : Moves t δ fh.frameSeq)
    (nowUs : ℕ) : c'.isMoot (turnHeader t fh) nowUs = c.isMoot fh nowUs := by
  have hkey : (turnHeader t fh).isKeyframe = fh.isKeyframe := rfl
  have hseq : (turnHeader t fh).frameSeq = t fh.frameSeq := rfl
  have hlast : (c'.h264Gate.lastFed.any fun last => decide (t fh.frameSeq ≤ last)) =
      c.h264Gate.lastFed.any fun last => decide (fh.frameSeq ≤ last) := by
    have hmap : c'.h264Gate.lastFed = c.h264Gate.lastFed.map t := by
      rw [h.gate]
      rfl
    rw [hmap]
    cases hl : c.h264Gate.lastFed with
    | none => rfl
    | some last =>
      simp only [map_some, any_some, hmoves.le_iff (h.lastFed last hl)]
  have hbelow : (t fh.frameSeq).toNat < c'.windowThreshold ↔
      fh.frameSeq.toNat < c.windowThreshold := by
    unfold windowThreshold
    rcases h.window with ⟨hlatest, hlmoves⟩ | ⟨h0, h0', -, -⟩
    · rw [hlatest]
      exact hmoves.below_iff hlmoves
    · rw [h0, h0']
      exact iff_of_false (Nat.not_lt_zero _) (Nat.not_lt_zero _)
  unfold ClientCore.isMoot
  rw [hkey, hseq, hlast, h.idrFragmentIsExempt hmoves]
  simp only [hbelow]

/-- The newest frame number has been turned too. -/
def Counted (t : Turning) (δ : ℤ) (c c' : ClientCore) : Prop :=
  c'.latestFullFrameSeq = t c.latestFullFrameSeq ∧ Moves t δ c.latestFullFrameSeq

/-- A frame joins the window of both cores. -/
theorem noteFrame (h : Turned t δ c c') {s : UInt32} (hmoves : Moves t δ s) (nowUs : ℕ) :
    Turned t δ (c.noteFrame s nowUs) (c'.noteFrame (t s) nowUs) ∧
      Counted t δ (c.noteFrame s nowUs) (c'.noteFrame (t s) nowUs) := by
  have hcounted : Counted t δ
      { c with
        latestFullFrameSeq := if c.latestFullFrameSeq < s then s else c.latestFullFrameSeq }
      { c' with
        latestFullFrameSeq :=
          if c'.latestFullFrameSeq < t s then t s else c'.latestFullFrameSeq } := by
    unfold Counted
    rcases h.window with ⟨hlatest, hlmoves⟩ | ⟨h0, h0', -, -⟩
    · rw [hlatest]
      simp only [hlmoves.lt_iff hmoves]
      split_ifs
      · exact ⟨rfl, hmoves⟩
      · exact ⟨rfl, hlmoves⟩
    · -- the first frame: counting from zero makes it the newest
      have hzero : ∀ x : UInt32, (if (0 : UInt32) < x then x else 0) = x := by
        intro x
        split_ifs with hx
        · rfl
        · rw [UInt32.lt_iff_toNat_lt] at hx
          apply UInt32.toNat_inj.1
          have hzero : (0 : UInt32).toNat = 0 := rfl
          omega
      rw [h0, h0', hzero, hzero]
      exact ⟨rfl, hmoves⟩
  have hturned : Turned t δ
      { c with
        latestFullFrameSeq := if c.latestFullFrameSeq < s then s else c.latestFullFrameSeq }
      { c' with
        latestFullFrameSeq :=
          if c'.latestFullFrameSeq < t s then t s else c'.latestFullFrameSeq } :=
    { h with window := .inl hcounted }
  exact ⟨hturned.evictStaleFrameAssemblies nowUs, hcounted⟩

/-- An assembly is stored in both cores. -/
theorem insert (h : Turned t δ c c') (hcounted : Counted t δ c c') {s : UInt32} {a : FrameAssembly}
    (hmoves : Moves t δ s) (hseq : a.header.frameSeq = s) (hkeeps : KeepsRef t a.header) :
    Turned t δ { c with frameAssemblies := c.frameAssemblies.insert s a }
      { c' with frameAssemblies := c'.frameAssemblies.insert (t s) (turnAssembly t a) } where
  __ := h
  assemblies := by
    intro s'
    show (c'.frameAssemblies.insert (t s) (turnAssembly t a)).get? (t s') =
      ((c.frameAssemblies.insert s a).get? s').map (turnAssembly t)
    rw [get?_insert, get?_insert, h.assemblies]
    simp only [t.injective.eq_iff]
    split_ifs <;> rfl
  onto := by
    intro s' a' hs'
    replace hs' : (c'.frameAssemblies.insert (t s) (turnAssembly t a)).get? s' = some a' := hs'
    rw [get?_insert] at hs'
    split_ifs at hs' with heq
    · exact ⟨s, heq⟩
    · exact h.onto s' a' hs'
  held := by
    intro s' a' hs'
    replace hs' : (c.frameAssemblies.insert s a).get? s' = some a' := hs'
    rw [get?_insert] at hs'
    split_ifs at hs' with heq
    · cases hs'
      subst heq
      exact ⟨hmoves, hseq, hkeeps⟩
    · exact h.held s' a' hs'
  window := .inl hcounted

/-- An assembly leaves both cores. -/
theorem erase (h : Turned t δ c c') (s : UInt32) :
    Turned t δ { c with frameAssemblies := c.frameAssemblies.erase s }
      { c' with frameAssemblies := c'.frameAssemblies.erase (t s) } where
  __ := h
  assemblies := by
    intro s'
    show (c'.frameAssemblies.erase (t s)).get? (t s') =
      ((c.frameAssemblies.erase s).get? s').map (turnAssembly t)
    rw [get?_erase, get?_erase, h.assemblies]
    simp only [t.injective.eq_iff]
    split_ifs <;> rfl
  onto := fun s' a' hs' => h.onto s' a' (get?_of_get?_erase hs').2
  held := fun s' a' hs' => h.held s' a' (get?_of_get?_erase hs').2
  window := by
    rcases h.window with hset | ⟨h0, h0', hfed, hnone⟩
    · exact .inl hset
    · refine .inr ⟨h0, h0', hfed, fun s' => ?_⟩
      show (c.frameAssemblies.erase s).get? s' = none
      rw [get?_erase, hnone]
      split_ifs <;> rfl

/-- A complete frame and its answer. -/
theorem afterGate (h : Turned t δ c c') : Turned t δ c.afterGate c'.afterGate := by
  have hrequest : c'.h264Gate.request = c.h264Gate.request.map fun r => (r.1, t r.2) := by
    rw [h.gate]
    rfl
  unfold ClientCore.afterGate
  rw [hrequest]
  cases c.h264Gate.request with
  | none => exact h
  | some r =>
    refine { h with gate := ?_ }
    show { c'.h264Gate with request := none } = _
    rw [h.gate]
    rfl

theorem record (h : Turned t δ c c') (s : UInt32) (d : Bool) (nowUs : ℕ) :
    Turned t δ { c with frameAcks := c.frameAcks.record s d nowUs }
      { c' with frameAcks := c'.frameAcks.record (t s) d nowUs } :=
  { h with
    acks := by
      show c'.frameAcks.record (t s) d nowUs = _
      rw [h.acks]
      exact FrameAckWindow.record_turn s d nowUs }

/-- Both gates judge a frame. -/
theorem onFrame (h : Turned t δ c c') (hcounted : Counted t δ c c') {hd : FrameHeader}
    (hmoves : Moves t δ hd.frameSeq) (hkeeps : KeepsRef t hd) (nowUs : ℕ) :
    Turned t δ { c with h264Gate := (c.h264Gate.onFrame hd nowUs).1 }
        { c' with h264Gate := (c'.h264Gate.onFrame (turnHeader t hd) nowUs).1 } ∧
      (c'.h264Gate.onFrame (turnHeader t hd) nowUs).2 = (c.h264Gate.onFrame hd nowUs).2 := by
  have hturn := H264Gate.onFrame_turn (g := c.h264Gate) hkeeps nowUs
  rw [← h.gate] at hturn
  refine ⟨{ h with gate := ?_, lastFed := ?_, window := .inl hcounted }, ?_⟩
  · show (c'.h264Gate.onFrame (turnHeader t hd) nowUs).1 = _
    rw [hturn]
  · show ∀ s ∈ (c.h264Gate.onFrame hd nowUs).1.lastFed, Moves t δ s
    rcases c.h264Gate.onFrame_cases hd nowUs with ⟨_, _, hsame⟩ | ⟨_, _, hfeeds⟩
    · rw [hsame.2.1]
      exact h.lastFed
    · rw [hfeeds.lastFed]
      rintro s ⟨rfl⟩
      exact hmoves
  · rw [hturn]

end Turned

/-- An event with its frame numbers turned. -/
def turnEvent (t : Turning) : Event → Event
  | .needsH264 frameSeq timestampUs isKeyframe refFrameSeq flags slots resetDecoder payload =>
    .needsH264 (t frameSeq) timestampUs isKeyframe
      (if refFrameSeq = refFrameNone then refFrameNone else t refFrameSeq) flags slots resetDecoder
      payload
  | e => e

/-- Two answers, the second turned. -/
def TurnedAnswer (t : Turning) (δ : ℤ) (r r' : ClientCore × List Event) : Prop :=
  Turned t δ r.1 r'.1 ∧ r'.2 = r.2.map (turnEvent t)

theorem Turned.quiet (h : Turned t δ c c') : TurnedAnswer t δ (c, []) (c', []) := ⟨h, rfl⟩

namespace Turned

theorem refuseFrame (h : Turned t δ c c') (s : UInt32) (cause : RefuseCause) (nowUs : ℕ) :
    Turned t δ (c.refuseFrame s cause nowUs) (c'.refuseFrame (t s) cause nowUs) := by
  have hfed : c'.h264Gate.wasFed (t s) = c.h264Gate.wasFed s := by
    rw [h.gate, H264Gate.wasFed_turn]
  unfold ClientCore.refuseFrame
  rw [hfed]
  split_ifs
  · exact h.afterGate
  · exact (h.record s false nowUs).afterGate

theorem feedFrame (h : Turned t δ c c') (s : UInt32) (resetDecoder : Bool) :
    Turned t δ (c.feedFrame s resetDecoder) (c'.feedFrame (t s) resetDecoder) := by
  cases resetDecoder with
  | false => exact h.afterGate
  | true =>
    refine Turned.afterGate { h with broken := rfl, epoch := ?_ }
    show (if c'.decoderBroken then some (t s) else c'.decoderEpochStart) =
      (if c.decoderBroken then some s else c.decoderEpochStart).map t
    rw [h.broken, h.epoch]
    split_ifs <;> rfl

theorem answer (h : Turned t δ c c') (s : UInt32) (a : FrameAssembly) (nowUs : ℕ) (v : Verdict) :
    TurnedAnswer t δ (c.answer s a nowUs v) (c'.answer (t s) (turnAssembly t a) nowUs v) := by
  cases v with
  | refuse cause => exact ⟨h.refuseFrame s cause nowUs, rfl⟩
  | feed resetDecoder => exact ⟨h.feedFrame s resetDecoder, rfl⟩

theorem finishFrameIfComplete (h : Turned t δ c c') (hcounted : Counted t δ c c') (s : UInt32)
    (nowUs : ℕ) :
    TurnedAnswer t δ (c.finishFrameIfComplete s nowUs) (c'.finishFrameIfComplete (t s) nowUs) := by
  unfold ClientCore.finishFrameIfComplete
  rw [h.assemblies]
  cases hs : c.frameAssemblies.get? s with
  | none => exact h.quiet
  | some a =>
    obtain ⟨hmoves, hseq, hkeeps⟩ := h.held s a hs
    have hcomplete : (turnAssembly t a).isComplete = a.isComplete := rfl
    simp only [map_some, hcomplete]
    split_ifs
    · rw [← hseq] at hmoves
      obtain ⟨hturned, hverdict⟩ := (h.erase s).onFrame hcounted hmoves hkeeps nowUs
      have hanswer := hturned.answer s a nowUs (c.h264Gate.onFrame a.header nowUs).2
      unfold judgeFrame
      have hheader : (turnAssembly t a).header = turnHeader t a.header := rfl
      rw [hheader, hverdict]
      exact hanswer
    · exact h.quiet

theorem storeFragment (h : Turned t δ c c') (hcounted : Counted t δ c c') (fh : FrameHeader)
    (payload : Bytes) (nowUs : ℕ) :
    TurnedAnswer t δ (c.storeFragment fh payload nowUs)
      (c'.storeFragment (turnHeader t fh) payload nowUs) := by
  have hseq : (turnHeader t fh).frameSeq = t fh.frameSeq := rfl
  have hidx : (turnHeader t fh).fragIdx = fh.fragIdx := rfl
  unfold ClientCore.storeFragment
  rw [hseq, hidx, h.assemblies]
  cases hs : c.frameAssemblies.get? fh.frameSeq with
  | none => exact h.quiet
  | some a =>
    obtain ⟨hmoves, hheader, hkeeps⟩ := h.held _ a hs
    have hfree : (turnAssembly t a).isFree fh.fragIdx.toNat = a.isFree fh.fragIdx.toNat := rfl
    have hbytes : (turnAssembly t a).bytes = a.bytes := rfl
    simp only [map_some, hfree, hbytes]
    split_ifs
    · exact (h.erase _).quiet
    · have hput := h.insert hcounted (a := a.put fh.fragIdx.toNat payload) hmoves hheader hkeeps
      exact hput.finishFrameIfComplete hcounted _ nowUs
    · exact h.finishFrameIfComplete hcounted _ nowUs

variable {fh : FrameHeader}

theorem openAssembly (h : Turned t δ c c') (hcounted : Counted t δ c c')
    (hmoves : Moves t δ fh.frameSeq) (hkeeps : KeepsRef t fh) (nowUs : ℕ) :
    Turned t δ (c.openAssembly fh nowUs) (c'.openAssembly (turnHeader t fh) nowUs) ∧
      Counted t δ (c.openAssembly fh nowUs) (c'.openAssembly (turnHeader t fh) nowUs) := by
  have hkey : (turnHeader t fh).isKeyframe = fh.isKeyframe := rfl
  have hcontains : c'.frameAssemblies.contains (turnHeader t fh).frameSeq =
      c.frameAssemblies.contains fh.frameSeq := by
    show (c'.frameAssemblies.get? (t fh.frameSeq)).isSome = (c.frameAssemblies.get? _).isSome
    rw [h.assemblies, isSome_map]
  unfold ClientCore.openAssembly
  simp only [hkey, hcontains]
  split_ifs
  · exact ⟨h.evictStaleFrameAssemblies nowUs, hcounted⟩
  · have hstart := h.insert hcounted (a := .start fh nowUs) hmoves rfl hkeeps
    exact ⟨hstart.evictStaleFrameAssemblies nowUs, hcounted⟩
  · exact ⟨h, hcounted⟩
  · exact ⟨h.insert hcounted (a := .start fh nowUs) hmoves rfl hkeeps, hcounted⟩

theorem takeFragment (h : Turned t δ c c') (hmoves : Moves t δ fh.frameSeq) (hkeeps : KeepsRef t fh)
    (payload : Bytes) (nowUs : ℕ) :
    TurnedAnswer t δ (c.takeFragment fh payload nowUs)
      (c'.takeFragment (turnHeader t fh) payload nowUs) := by
  have hflags : (turnHeader t fh).flags = fh.flags := rfl
  have htotal : (turnHeader t fh).fragTotal = fh.fragTotal := rfl
  obtain ⟨hnoted, hcounted⟩ := h.noteFrame hmoves nowUs
  unfold ClientCore.takeFragment
  rw [hflags, htotal, h.isMoot hmoves]
  split_ifs
  · exact h.quiet
  · exact h.quiet
  · exact hnoted.quiet
  · exact hnoted.quiet
  · obtain ⟨hopen, hcounted'⟩ := hnoted.openAssembly hcounted hmoves hkeeps nowUs
    exact hopen.storeFragment hcounted' fh payload nowUs

theorem handleFrameDatagram (h : Turned t δ c c') {bytes bytes' payload : Bytes}
    (hdecode : decodeFrameDatagram bytes = .ok (fh, payload))
    (hdecode' : decodeFrameDatagram bytes' = .ok (turnHeader t fh, payload))
    (hmoves : Moves t δ fh.frameSeq) (hkeeps : KeepsRef t fh) (nowUs : ℕ) :
    TurnedAnswer t δ (c.handleFrameDatagram bytes nowUs) (c'.handleFrameDatagram bytes' nowUs) := by
  have hidx : (turnHeader t fh).fragIdx = fh.fragIdx := rfl
  have htotal : (turnHeader t fh).fragTotal = fh.fragTotal := rfl
  have hwire : (turnHeader t fh).wireSeq = fh.wireSeq := rfl
  unfold ClientCore.handleFrameDatagram
  rw [hdecode, hdecode']
  simp only [hidx, htotal, hwire]
  split_ifs
  · exact h.quiet
  · exact h.takeFragment hmoves hkeeps payload nowUs
  · have hacked : Turned t δ (c.ackTransmission fh.wireSeq nowUs)
        (c'.ackTransmission fh.wireSeq nowUs) :=
      h.congr rfl rfl
    exact hacked.takeFragment hmoves hkeeps payload nowUs

/-- The decoder broke, and both gates are reset. -/
theorem decoderBroke (h : Turned t δ c c') (cause : ResetCause) (s : UInt32) (nowUs : ℕ) :
    Turned t δ (c.decoderBroke cause s nowUs) (c'.decoderBroke cause (t s) nowUs) := by
  have hlast := (c.h264Gate.reset_fields cause s nowUs).2.1
  exact
    { h.record s false nowUs with
      gate := by
        show c'.h264Gate.reset cause (t s) nowUs = _
        rw [h.gate]
        exact H264Gate.reset_turn t c.h264Gate cause s nowUs
      broken := rfl
      lastFed := by
        show ∀ s' ∈ (c.h264Gate.reset cause s nowUs).lastFed, Moves t δ s'
        rw [hlast]
        exact h.lastFed
      window := by
        rcases h.window with hset | ⟨h0, h0', hfed, hnone⟩
        · exact .inl hset
        · exact .inr ⟨h0, h0', hlast.trans hfed, hnone⟩ }

theorem h264Result (h : Turned t δ c c') (s : UInt32) (o : H264Outcome) (nowUs : ℕ) :
    Turned t δ (c.h264Result s o nowUs) (c'.h264Result (t s) o nowUs) := by
  have hbefore : c'.beforeBoundary (t s) = c.beforeBoundary s := by
    unfold beforeBoundary
    rw [h.broken, h.epoch]
    cases c.decoderEpochStart with
    | none => rfl
    | some e => simp only [map_some, any_some, seqAfter_turn]
  cases o with
  | decoded =>
    unfold ClientCore.h264Result
    rw [hbefore]
    exact (h.record s _ nowUs).afterGate
  | notOutput => exact (h.record s false nowUs).afterGate
  | decodeError => exact (h.decoderBroke .decoderFailure s nowUs).afterGate
  | noDecoder => exact (h.decoderBroke .noDecoder s nowUs).afterGate

end Turned

/-! ### Beside the H.264 path -/

/-- Is the event one of the H.264 path? -/
def Event.isH264 : Event → Bool
  | .needsH264 .. => true
  | _ => false

/-- The H.264 path has no part in the answer. -/
def Beside (c : ClientCore) (r : ClientCore × List Event) : Prop :=
  h264Path r.1 = h264Path c ∧ r.2.filter Event.isH264 = []

namespace Beside

variable {d : ClientCore} {r : ClientCore × List Event}

theorem of (h : Beside d r) (hd : h264Path d = h264Path c) : Beside c r := ⟨h.1.trans hd, h.2⟩

theorem noteArrival (frameSeq : UInt32) (th : TileHeader) (outcome : ArrivalOutcome) (nowUs : ℕ) :
    h264Path (c.noteArrival frameSeq th outcome nowUs) = h264Path c := by
  have hqueue : ∀ (passes : List UInt8) (c : ClientCore), h264Path (passes.foldl
      (fun c p => c.queuePassNack frameSeq th.tileX th.tileY nowUs p) c) = h264Path c := by
    intro passes
    induction passes with
    | nil => exact fun _ => rfl
    | cons p passes ih =>
      intro c
      rw [foldl_cons, ih, queuePassNack]
      split_ifs <;> rfl
  rw [ClientCore.noteArrival, hqueue]
  split_ifs <;> rfl

theorem deliverTile (frameSeq : UInt32) (th : TileHeader) (ws : UInt32) (payload : Bytes)
    (nowUs : ℕ) : Beside c (c.deliverTile frameSeq th ws payload nowUs) := by
  unfold ClientCore.deliverTile
  split
  · unfold deliverSolid
    split <;> exact ⟨rfl, rfl⟩
  · unfold deliverPalRle
    split
    · exact ⟨rfl, rfl⟩
    · dsimp only
      split <;> exact ⟨rfl, rfl⟩
  · unfold deliverCdf53
    split_ifs
    · exact ⟨rfl, rfl⟩
    · split <;> exact ⟨noteArrival _ _ _ _, rfl⟩
  · exact ⟨rfl, rfl⟩
  · exact ⟨rfl, rfl⟩

theorem handleSentinel (th : TileHeader) (payload bytes : Bytes) :
    Beside c (c.handleSentinel th payload bytes) := by
  unfold ClientCore.handleSentinel acceptFrameDimensions
  dsimp only
  split_ifs
  any_goals exact ⟨rfl, rfl⟩
  exact ⟨rfl, by cases parseEviction bytes <;> rfl⟩

theorem handleSourceTile (bytes : Bytes) (nowUs : ℕ) (provenance : Provenance) :
    Beside c (c.handleSourceTile bytes nowUs provenance) := by
  unfold ClientCore.handleSourceTile handleTile
  split_ifs
  · exact ⟨rfl, rfl⟩
  · split
    · exact ⟨rfl, rfl⟩
    · dsimp only
      split_ifs
      · exact (handleSentinel _ _ _).of rfl
      any_goals exact ⟨rfl, rfl⟩
      all_goals exact (deliverTile _ _ _ _ _).of rfl

theorem handleParity (bytes : Bytes) (nowUs : ℕ) : Beside c (c.handleParity bytes nowUs) := by
  unfold ClientCore.handleParity
  split
  · exact ⟨rfl, rfl⟩
  · dsimp only
    split
    · exact (handleSourceTile _ _ _).of rfl
    · exact ⟨rfl, rfl⟩

theorem handleTileDatagram (bytes : Bytes) (nowUs : ℕ) :
    Beside c (c.handleTileDatagram bytes nowUs) := by
  unfold ClientCore.handleTileDatagram
  dsimp only
  cases (c.parityDecoder.recordSource (be32At bytes 8) bytes).2 with
  | none => exact (handleSourceTile bytes nowUs .received).of rfl
  | some source =>
    have hsource := handleSourceTile (c := { c with
      datagramsTile := saturatingSucc64 c.datagramsTile
      parityDecoder := (c.parityDecoder.recordSource (be32At bytes 8) bytes).1 })
      source nowUs .rebuilt
    have hown := (handleSourceTile bytes nowUs .received).of hsource.1
    exact ⟨hown.1, by rw [filter_append, hsource.2, hown.2]; rfl⟩

end Beside

/-- The H.264 paths agree after datagrams that are none of their business. -/
theorem Turned.aside {r r' : ClientCore × List Event} (h : Turned t δ c c') (hr : Beside c r)
    (hr' : Beside c' r') :
    TurnedAnswer t δ (r.1, r.2.filter Event.isH264) (r'.1, r'.2.filter Event.isH264) :=
  ⟨h.congr hr.1 hr'.1, by rw [hr.2, hr'.2]; rfl⟩

/-- The pixel decoder neither takes nor makes an event of the H.264 path. -/
theorem filter_decode (d : TileDecoder) (ev : Event) :
    (d.decode ev).2.toList.filter Event.isH264 = [ev].filter Event.isH264 := by
  have hcdf : ∀ s x y g p planes present fresh,
      (d.decodeCdf53 s x y g p planes present fresh).2.toList.filter Event.isH264 = [] := by
    intro s x y g p planes present fresh
    unfold TileDecoder.decodeCdf53
    dsimp only
    split_ifs
    · rfl
    · cases ((d.cdf53.forgetTile x y).integrateBgr x y ⟨g, p, planes, present⟩).2 <;> rfl
    · cases (d.cdf53.integrateBgr x y ⟨g, p, planes, present⟩).2 <;> rfl
  cases ev with
  | tilePayload s x y g data =>
    cases data with
    | solid => rfl
    | palRle => rfl
    | cdf53 => exact hcdf _ _ _ _ _ _ _ _
    | cdf53Wire =>
      simp only [TileDecoder.decode]
      split
      · rfl
      · exact hcdf _ _ _ _ _ _ _ _
  | _ => rfl

theorem filter_decodeAll (d : TileDecoder) (events : List Event) :
    (d.decodeAll events).2.filter Event.isH264 = events.filter Event.isH264 := by
  induction events generalizing d with
  | nil => rfl
  | cons ev events ih =>
    rw [TileDecoder.decodeAll, filter_append, filter_decode, ih, ← filter_append]
    rfl

theorem decodeEvents_h264 (c : ClientCore) (events : List Event) :
    h264Path (c.decodeEvents events).1 = h264Path c ∧
      (c.decodeEvents events).2.filter Event.isH264 = events.filter Event.isH264 := by
  unfold decodeEvents
  split
  · exact ⟨rfl, filter_decodeAll _ _⟩
  · exact ⟨rfl, rfl⟩

theorem isH264_turnEvent (t : Turning) : Event.isH264 ∘ turnEvent t = Event.isH264 := by
  funext e
  cases e <;> rfl

theorem TurnedAnswer.decodeEvents {r r' : ClientCore × List Event} (h : TurnedAnswer t δ r r') :
    TurnedAnswer t δ ((r.1.decodeEvents r.2).1, (r.1.decodeEvents r.2).2.filter Event.isH264)
      ((r'.1.decodeEvents r'.2).1, (r'.1.decodeEvents r'.2).2.filter Event.isH264) := by
  obtain ⟨hpath, hfilter⟩ := decodeEvents_h264 r.1 r.2
  obtain ⟨hpath', hfilter'⟩ := decodeEvents_h264 r'.1 r'.2
  refine ⟨h.1.congr hpath hpath', ?_⟩
  rw [hfilter, hfilter', h.2, List.filter_map, isH264_turnEvent]

theorem handleDatagram_frame {bytes : Bytes} (h : route bytes = .frame) (nowUs : ℕ) :
    c.handleDatagram bytes nowUs =
      (c.countFrame.handleFrameDatagram bytes nowUs).1.decodeEvents
        (c.countFrame.handleFrameDatagram bytes nowUs).2 := by
  rw [handleDatagram, handleDatagramPayloads, h]

/-- A datagram that does not take the frame path. -/
theorem beside_handleDatagram {bytes : Bytes} (h : route bytes ≠ .frame) (nowUs : ℕ) :
    Beside c (c.handleDatagram bytes nowUs) := by
  have hpayloads : Beside c (c.handleDatagramPayloads bytes nowUs) := by
    unfold handleDatagramPayloads
    split
    · exact ⟨rfl, rfl⟩
    · exact Beside.handleParity bytes nowUs
    · contradiction
    · exact Beside.handleTileDatagram bytes nowUs
  obtain ⟨hpath, hevents⟩ := decodeEvents_h264 (c.handleDatagramPayloads bytes nowUs).1
    (c.handleDatagramPayloads bytes nowUs).2
  exact ⟨hpath.trans hpayloads.1, hevents.trans hpayloads.2⟩

/-! ### Histories -/

/-- What the client is given: a datagram, or the decoder's answer about a frame. -/
inductive H264Op
  | datagram (bytes : Bytes) (nowUs : ℕ)
  | result (frameSeq : UInt32) (outcome : H264Outcome) (nowUs : ℕ)
  deriving DecidableEq

/-- One operation, and the events of the H.264 path it causes. -/
def h264Step (c : ClientCore) : H264Op → ClientCore × List Event
  | .datagram bytes nowUs =>
    ((c.handleDatagram bytes nowUs).1, (c.handleDatagram bytes nowUs).2.filter Event.isH264)
  | .result frameSeq outcome nowUs => (c.h264Result frameSeq outcome nowUs, [])

/-- A history of the client, and the events of the H.264 path. -/
def h264Run (c : ClientCore) : List H264Op → ClientCore × List Event
  | [] => (c, [])
  | op :: ops =>
    ((h264Run (h264Step c op).1 ops).1, (h264Step c op).2 ++ (h264Run (h264Step c op).1 ops).2)

/-- The second operation is the first, turned by `b`; a datagram that is not taken for a fragment in
either history is free. -/
inductive TurnedOp (b : UInt32) (P : FrameHeader → Prop) : H264Op → H264Op → Prop
  | frame {fh : FrameHeader} (payload : Bytes) (nowUs : ℕ) : P fh →
    TurnedOp b P (.datagram (fh.encode ++ payload) nowUs)
      (.datagram ((turnHeader (turn b) fh).encode ++ payload) nowUs)
  | aside {bytes bytes' : Bytes} (nowUs : ℕ) : route bytes ≠ .frame → route bytes' ≠ .frame →
    TurnedOp b P (.datagram bytes nowUs) (.datagram bytes' nowUs)
  | result {s : UInt32} {o : H264Outcome} {nowUs : ℕ} :
    TurnedOp b P (.result s o nowUs) (.result (turn b s) o nowUs)

/-- The numbers of a header are numbers of frames, and the fragment is taken for parity in both
histories or in neither. -/
structure Turnable (b : UInt32) (fh : FrameHeader) : Prop where
  frameSeq : fh.frameSeq.toNat < 2 ^ 31
  ref : fh.refFrameSeq = refFrameNone ∨ fh.refFrameSeq.toNat < 2 ^ 31
  parity : LooksLikeParity (turn b fh.frameSeq) ↔ LooksLikeParity fh.frameSeq

variable {b : UInt32} {fh : FrameHeader}

theorem toNat_turn (b s : UInt32) :
    (turn b s).toNat = s.toNat / 2 ^ 31 * 2 ^ 31 + (s.toNat + b.toNat) % 2 ^ 31 :=
  toNat_turnBy b s

theorem Turnable.keepsRef (h : Turnable b fh) : KeepsRef (turn b) fh := by
  intro hne hturn
  have hlt := h.ref.resolve_left hne
  have hnat := congrArg toNat hturn
  have htop : refFrameNone.toNat = 2 ^ 32 - 1 := rfl
  rw [toNat_turn] at hnat
  omega

/-- A fragment and the turned one. -/
theorem Turned.fragment (h : Turned (turn b) δ c c') (hfh : Turnable b fh)
    (hmoves : Moves (turn b) δ fh.frameSeq) (payload : Bytes) (nowUs : ℕ) :
    TurnedAnswer (turn b) δ (h264Step c (.datagram (fh.encode ++ payload) nowUs))
      (h264Step c' (.datagram ((turnHeader (turn b) fh).encode ++ payload) nowUs)) := by
  have hseq : (turnHeader (turn b) fh).frameSeq = turn b fh.frameSeq := rfl
  have hlt := hfh.frameSeq
  have hroute := route_frameDatagram fh payload hlt
  have hroute' := route_frameDatagram (turnHeader (turn b) fh) payload
    (by rw [hseq, toNat_turn]; omega)
  rw [hseq] at hroute'
  by_cases hp : LooksLikeParity fh.frameSeq
  · rw [if_pos hp] at hroute
    rw [if_pos (hfh.parity.2 hp)] at hroute'
    exact h.aside (beside_handleDatagram (by rw [hroute]; decide) nowUs)
      (beside_handleDatagram (by rw [hroute']; decide) nowUs)
  · rw [if_neg hp] at hroute
    rw [if_neg (mt hfh.parity.1 hp)] at hroute'
    have hcount : Turned (turn b) δ c.countFrame c'.countFrame := h.congr rfl rfl
    have hanswer := hcount.handleFrameDatagram (decodeFrameDatagram_encode fh payload)
      (decodeFrameDatagram_encode _ payload) hmoves hfh.keepsRef nowUs
    rw [h264Step, h264Step, handleDatagram_frame hroute, handleDatagram_frame hroute']
    exact hanswer.decodeEvents

/-- The run of a turned history. -/
theorem Turned.run {P : FrameHeader → Prop} {ops ops' : List H264Op}
    (hP : ∀ fh, P fh → Turnable b fh ∧ Moves (turn b) δ fh.frameSeq)
    (hops : List.Forall₂ (TurnedOp b P) ops ops') :
    ∀ {c c' : ClientCore}, Turned (turn b) δ c c' →
      TurnedAnswer (turn b) δ (h264Run c ops) (h264Run c' ops') := by
  induction hops with
  | nil => exact fun h => h.quiet
  | @cons op op' _ _ hop _ ih =>
    intro c c' h
    have hstep : TurnedAnswer (turn b) δ (h264Step c op) (h264Step c' op') := by
      cases hop with
      | frame payload nowUs hfh => exact h.fragment (hP _ hfh).1 (hP _ hfh).2 payload nowUs
      | aside nowUs hroute hroute' =>
        exact h.aside (beside_handleDatagram hroute nowUs) (beside_handleDatagram hroute' nowUs)
      | result => exact ⟨h.h264Result _ _ _, rfl⟩
    obtain ⟨hcore, hevents⟩ := ih hstep.1
    refine ⟨hcore, ?_⟩
    simp only [h264Run]
    rw [map_append, hstep.2, hevents]

theorem turned_new (t : Turning) (δ : ℤ) (config : ClientConfig) :
    Turned t δ (.new config) (.new config) where
  gate := rfl
  acks := rfl
  broken := rfl
  epoch := rfl
  lastFed := nofun
  assemblies := fun _ => rfl
  onto := nofun
  held := nofun
  window := .inr ⟨rfl, rfl, rfl, fun _ => rfl⟩

/-- Does a frame number pass the end of the circle? -/
def passesEnd (b s : UInt32) : Bool := decide (2 ^ 31 ≤ s.toNat + b.toNat % 2 ^ 31)

/-- **A turned history gives turned events and acknowledges turned frames**, if none of its frame
numbers passes the end of the circle, or all of them do. -/
theorem h264_turn_invariant (config : ClientConfig) (b : UInt32) (passes : Bool)
    {ops ops' : List H264Op}
    (hops : List.Forall₂ (TurnedOp b fun fh => Turnable b fh ∧ passesEnd b fh.frameSeq = passes)
      ops ops') :
    (h264Run (.new config) ops').2 = (h264Run (.new config) ops).2.map (turnEvent (turn b)) ∧
      (h264Run (.new config) ops').1.frameAcks =
        (h264Run (.new config) ops).1.frameAcks.turned (turn b) := by
  have hmoves : ∀ fh, Turnable b fh ∧ passesEnd b fh.frameSeq = passes →
      Turnable b fh ∧ Moves (turn b) ((b.toNat % 2 ^ 31 : ℕ) - if passes then 2 ^ 31 else 0)
        fh.frameSeq := by
    rintro fh ⟨hfh, rfl⟩
    have := hfh.frameSeq
    refine ⟨hfh, ?_⟩
    simp only [Moves, toNat_turn, passesEnd, decide_eq_true_eq]
    split_ifs <;> omega
  obtain ⟨hturned, hevents⟩ := (turned_new _ _ config).run hmoves hops
  exact ⟨hevents, hturned.acks⟩

/-- An IDR and a frame predicted from it, each a datagram of its own. -/
def twoFrames (first second : UInt32) : List H264Op :=
  [.datagram ((wholeFrame first refFrameNone frameFlagIdr).encode ++ [1]) 0,
    .datagram ((wholeFrame second first 0).encode ++ [2]) 0]

/-- Two frames, turned. -/
theorem turned_twoFrames {P : FrameHeader → Prop} {first second first' second' : UInt32}
    (hturn : turn b first = first' ∧ turn b second = second' ∧ first ≠ refFrameNone)
    (hfirst : P (wholeFrame first refFrameNone frameFlagIdr))
    (hsecond : P (wholeFrame second first 0)) :
    List.Forall₂ (TurnedOp b P) (twoFrames first second) (twoFrames first' second') := by
  obtain ⟨rfl, rfl, hne⟩ := hturn
  have hheader : turnHeader (turn b) (wholeFrame second first 0) =
      wholeFrame (turn b second) (turn b first) 0 := by
    show { wholeFrame (turn b second) first 0 with
      refFrameSeq := (turnHeader (turn b) (wholeFrame second first 0)).refFrameSeq } = _
    rw [turnHeader_ref_of_ne (h := wholeFrame second first 0) hne]
    rfl
  have hlater := TurnedOp.frame (b := b) [2] 0 hsecond
  rw [hheader] at hlater
  exact .cons (.frame [1] 0 hfirst) (.cons hlater .nil)

instance (b : UInt32) (fh : FrameHeader) : Decidable (Turnable b fh) :=
  decidable_of_iff (_ ∧ _ ∧ _) ⟨fun h => ⟨h.1, h.2.1, h.2.2⟩, fun h => ⟨h.1, h.2, h.3⟩⟩

theorem h264_turn_invariant_twoFrames :
    (h264Run (.new {}) (twoFrames 15 16)).2 =
      (h264Run (.new {}) (twoFrames 10 11)).2.map (turnEvent (turn 5)) ∧
    (h264Run (.new {}) (twoFrames 10 11)).2.length = 2 := by
  refine ⟨?_, by decide +kernel⟩
  exact (h264_turn_invariant {} 5 false (turned_twoFrames (by decide +kernel) (by decide +kernel)
    (by decide +kernel))).1

/-- Turned so that the second frame passes the end of the circle, it is never delivered. -/
theorem frame_dropped_past_the_end :
    List.Forall₂ (TurnedOp 2147483637 (Turnable 2147483637)) (twoFrames 10 11)
        (twoFrames 2147483647 0) ∧
      (h264Run (.new {}) (twoFrames 10 11)).2.length = 2 ∧
      (h264Run (.new {}) (twoFrames 2147483647 0)).2.length = 1 := by
  refine ⟨turned_twoFrames (by decide +kernel) (by decide +kernel) (by decide +kernel), ?_, ?_⟩
  · decide +kernel
  · decide +kernel

end Ghostframe.Client
