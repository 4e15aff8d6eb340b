import Ghostframe.Client.H264Gate
import Ghostframe.Lib.Bits
import Ghostframe.Lib.Run

/-!
# The reference gate against an ideal decoder

An ideal decoder takes exactly the frames the gate feeds. `References` is what it
holds: the newest reference picture and the two long-term slots.

* `onFrame_cases`: a frame is refused and changes no reference, or it is fed, names a
  picture the decoder holds, and both sides take it the same way;
* `gate_sound`: what the log of every run says;
* `gate_complete`: a frame that names the newest reference is fed, as long as that
  reference is among the last 128 frames fed. 128 frames that nothing may
  reference push it out (`newest_reference_forgotten`).
-/

namespace Ghostframe.Client

open Protocol H264Gate List

/-- The pictures an ideal decoder can predict from. -/
structure References where
  newest : Option UInt32 := none
  slots : Option UInt32 × Option UInt32 := (none, none)
  deriving DecidableEq

open References

namespace References

/-- The picture in a long-term slot; there are two. -/
def slot (r : References) : ℕ → Option UInt32
  | 0 => r.slots.1
  | 1 => r.slots.2
  | _ => none

variable (r : References)

/-- A picture goes into a long-term slot. -/
def mark (seq : UInt32) : ℕ → References
  | 0 => { r with slots := (some seq, r.slots.2) }
  | 1 => { r with slots := (r.slots.1, some seq) }
  | _ => r

/-- May nothing reference the frame? -/
def isLeaf (h : FrameHeader) : Bool :=
  !h.isKeyframe && decide (h.flags &&& frameFlagNonRef ≠ 0)

/-- Does the frame put the picture it predicts from into a slot? -/
def marksTarget (h : FrameHeader) : Bool :=
  decide (h.flags &&& frameFlagMarkTarget ≠ 0) && decide (h.flags &&& frameFlagTargetIsLt = 0) &&
    decide (h.refFrameSeq ≠ refFrameNone)

/-- Does the frame put itself into a slot? -/
def marksItself (h : FrameHeader) : Bool := decide (h.flags &&& frameFlagMarkLt ≠ 0)

/-- The decoder takes a frame: an IDR starts afresh with itself in slot 0, any other
reference picture becomes the newest and carries out its mark. -/
def push (h : FrameHeader) : References :=
  if h.isKeyframe then ⟨some h.frameSeq, some h.frameSeq, none⟩
  else if isLeaf h then r
  else
    let slot := (h.slots &&& 0x03).toNat
    let r := if marksTarget h then r.mark h.refFrameSeq slot else r
    let r := if marksItself h then r.mark h.frameSeq slot else r
    { r with newest := some h.frameSeq }

theorem push_newest {h : FrameHeader} (hleaf : ¬isLeaf h = true) :
    (r.push h).newest = some h.frameSeq := by
  unfold push
  split_ifs <;> rfl

/-- The decoder holds the picture a frame names. -/
def Holds (h : FrameHeader) : Prop :=
  if h.flags &&& frameFlagTargetIsLt ≠ 0 then
    r.slot ((h.slots >>> 2) &&& 0x03).toNat = some h.refFrameSeq
  else r.newest = some h.refFrameSeq

end References

/-! ### Gate and decoder side by side -/

/-- What happens at the gate. -/
inductive GateOp
  | frame (h : FrameHeader) (nowUs : ℕ)
  | reset (cause : ResetCause) (frameSeq : UInt32) (nowUs : ℕ)
  | outcome (o : H264Outcome) (frameSeq : UInt32) (nowUs : ℕ)
  | takeRequest
  deriving DecidableEq

/-- A frame that was fed, with the decoder's references before it. -/
structure Fed where
  header : FrameHeader
  resetDecoder : Bool
  before : References
  afterReset : Bool
  deriving DecidableEq

/-- A gate, the decoder behind it, and the frames fed so far, newest first. -/
structure GateRun where
  gate : H264Gate := {}
  decoder : References := {}
  wasReset : Bool := false
  fed : List Fed := []
  deriving DecidableEq

open GateRun

namespace GateRun

/-- The gate is reset, and the decoder forgets every picture. -/
def reset (r : GateRun) (cause : ResetCause) (frameSeq : UInt32) (nowUs : ℕ) : GateRun :=
  { r with gate := r.gate.reset cause frameSeq nowUs, decoder := {}, wasReset := true }

/-- The gate's verdict on a frame is carried out. -/
def answer (r : GateRun) (h : FrameHeader) : Verdict → GateRun
  | .refuse _ => r
  | .feed resetDecoder =>
    { r with
      decoder := r.decoder.push h
      wasReset := false
      fed := ⟨h, resetDecoder, r.decoder, r.wasReset⟩ :: r.fed }

/-- One operation. -/
def step (r : GateRun) : GateOp → GateRun
  | .frame h nowUs =>
    { r with gate := (r.gate.onFrame h nowUs).1 }.answer h (r.gate.onFrame h nowUs).2
  | .reset cause frameSeq nowUs => r.reset cause frameSeq nowUs
  | .outcome .decodeError frameSeq nowUs => r.reset .decoderFailure frameSeq nowUs
  | .outcome .noDecoder frameSeq nowUs => r.reset .noDecoder frameSeq nowUs
  | .outcome .decoded _ _ => r
  | .outcome .notOutput _ _ => r
  | .takeRequest => { r with gate := { r.gate with request := none } }

/-- The frames fed since the newest reference. -/
def leaves (r : GateRun) : ℕ := (r.fed.takeWhile fun e => References.isLeaf e.header).length

end GateRun

/-! ### The gate as a decoder's references -/

namespace H264Gate

/-- What the gate believes the decoder holds. -/
def references (g : H264Gate) : References := ⟨g.newestRef, g.lt⟩

/-- Is the frame newer than everything fed? -/
def isNewer (g : H264Gate) (seq : UInt32) : Bool := g.lastFed.all fun l => seqAfter seq l

/-- The fields a refusal leaves alone. -/
def Same (g g' : H264Gate) : Prop :=
  g'.references = g.references ∧ g'.lastFed = g.lastFed ∧ g'.good = g.good ∧
    g'.decoderResetPending = g.decoderResetPending

variable (g : H264Gate) {h : FrameHeader}

theorem Same.refl : g.Same g := ⟨rfl, rfl, rfl, rfl⟩

theorem pacedRequest_same (reason : ResetReason) (seq : UInt32) (nowUs : ℕ) :
    g.Same (g.pacedRequest reason seq nowUs) := by
  cases reason <;> unfold pacedRequest <;> dsimp only <;> split_ifs <;> exact ⟨rfl, rfl, rfl, rfl⟩

theorem refuse_same (cause : RefuseCause) (seq : UInt32) (nowUs : ℕ) :
    g.Same (g.refuse cause seq nowUs).1 := by
  unfold refuse
  dsimp only
  split_ifs
  · exact ⟨rfl, rfl, rfl, rfl⟩
  · exact pacedRequest_same _ _ _ _
  · exact ⟨rfl, rfl, rfl, rfl⟩
  · exact Same.refl g

theorem refuse_verdict (cause : RefuseCause) (seq : UInt32) (nowUs : ℕ) :
    (g.refuse cause seq nowUs).2 = .refuse cause := by
  unfold refuse
  dsimp only
  split_ifs <;> rfl

/-- A reset forgets every reference and remembers that it happened. -/
theorem reset_fields (cause : ResetCause) (seq : UInt32) (nowUs : ℕ) :
    (g.reset cause seq nowUs).references = {} ∧ (g.reset cause seq nowUs).lastFed = g.lastFed ∧
      (g.reset cause seq nowUs).good = [] ∧
      (g.reset cause seq nowUs).decoderResetPending = true := by
  cases cause with
  | idrReceived | resolution => exact ⟨rfl, rfl, rfl, rfl⟩
  | decoderFailure =>
    exact pacedRequest_same { g.forget with waitingForIdr := true } .decoderFailure seq nowUs
  | noDecoder =>
    unfold reset
    dsimp only
    split_ifs <;> exact ⟨rfl, rfl, rfl, rfl⟩

/-- A frame's marks name slots that exist, and it asks for one mark only. -/
def ValidMarks (h : FrameHeader) : Prop :=
  ((marks h || marksTarget h) = true → (h.slots &&& 0x03).toNat < ltSlots) ∧
    ¬(marks h = true ∧ h.flags &&& frameFlagMarkTarget ≠ 0)

instance (h : FrameHeader) : Decidable (ValidMarks h) :=
  inferInstanceAs (Decidable (_ ∧ _))

/-- The ring of good frames takes a frame. -/
def ring (good : List UInt32) (seq : UInt32) : List UInt32 :=
  if (good ++ [seq]).length > goodCap then (good ++ [seq]).drop 1 else good ++ [seq]

theorem setLt_references {slot : ℕ} (hslot : slot < ltSlots) (seq : UInt32) :
    (g.setLt slot seq).references = g.references.mark seq slot := by
  have : slot = 0 ∨ slot = 1 := by unfold ltSlots at hslot; omega
  rcases this with rfl | rfl <;> rfl

theorem marksTarget_eq (href : h.flags &&& frameFlagNonRef = 0) :
    (marksTarget h && decide (h.refFrameSeq ≠ refFrameNone)) = References.marksTarget h := by
  simp only [marksTarget, References.marksTarget, and_or_eq_zero, href, true_and]

theorem marksTarget_leaf (href : h.flags &&& frameFlagNonRef ≠ 0) : marksTarget h = false := by
  simp [marksTarget, and_or_eq_zero, href]

/-- A predicted frame with valid marks changes the gate as it changes the decoder. -/
theorem feedPredicted_references (hkey : h.isKeyframe = false) (hmarks : ValidMarks h) :
    (g.feedPredicted h).1.references = g.references.push h := by
  obtain ⟨hslot, hone⟩ := hmarks
  unfold push feedPredicted
  rw [if_neg (by simp [hkey])]
  by_cases href : h.flags &&& frameFlagNonRef = 0
  · have hleaf : ¬isLeaf h = true := by simp [isLeaf, href]
    have hitself : marks h = marksItself h := by
      simp [marks, marksItself, href]
    rw [hitself] at hslot hone
    simp only [if_neg hleaf, if_pos href, marksTarget_eq href, hitself]
    -- the frame carries no mark, one on itself, or one on its target
    cases hm : marksItself h with
    | true =>
      have ht : References.marksTarget h = false := by
        by_contra hcon
        simp only [References.marksTarget, Bool.not_eq_false, Bool.and_eq_true,
          decide_eq_true_eq] at hcon
        exact hone ⟨hm, hcon.1.1⟩
      simp only [ht, Bool.false_eq_true, if_false, if_true]
      exact congrArg (fun r : References => { r with newest := some h.frameSeq })
        (setLt_references g (hslot (by rw [hm, Bool.true_or])) h.frameSeq)
    | false =>
      cases ht : References.marksTarget h with
      | true =>
        have htarget : marksTarget h = true := by
          rw [← marksTarget_eq href, Bool.and_eq_true] at ht
          exact ht.1
        exact congrArg (fun r : References => { r with newest := some h.frameSeq })
          (setLt_references g (hslot (by rw [htarget, Bool.or_true])) h.refFrameSeq)
      | false => rfl
  · have hleaf : isLeaf h = true := by simp [isLeaf, hkey, href]
    simp only [if_pos hleaf, if_neg href, marksTarget_leaf href, Bool.false_and,
      Bool.false_eq_true, if_false]
    rfl

theorem feedPredicted_lastFed (h : FrameHeader) :
    (g.feedPredicted h).1.lastFed = some h.frameSeq := by
  unfold feedPredicted
  split_ifs <;> rfl

theorem feedPredicted_good (h : FrameHeader) :
    (g.feedPredicted h).1.good = ring g.good h.frameSeq := by
  unfold feedPredicted
  simp only [apply_ite good, setLt, ite_self]
  rfl

theorem feedPredicted_verdict (h : FrameHeader) :
    (g.feedPredicted h).2 = .feed g.decoderResetPending ∧
      (g.feedPredicted h).1.decoderResetPending = false := by
  unfold feedPredicted
  split_ifs <;> exact ⟨rfl, rfl⟩

/-- A target the gate finds is one the decoder holds. -/
theorem holds_of_holdsTarget {g : H264Gate} (hheld : g.holdsTarget h = some true)
    (hnamed : h.refFrameSeq ≠ refFrameNone) : g.references.Holds h := by
  unfold holdsTarget at hheld
  unfold References.Holds
  by_cases hlt : h.flags &&& frameFlagTargetIsLt ≠ 0
  · rw [if_pos hlt] at hheld ⊢
    generalize ((h.slots >>> 2) &&& 0x03).toNat = slot at hheld ⊢
    by_cases hslot : ltSlots ≤ slot
    · rw [if_pos hslot] at hheld
      cases hheld
    · rw [if_neg hslot] at hheld
      simp only [Option.some.injEq, Bool.and_eq_true, decide_eq_true_eq] at hheld
      have : slot = 0 ∨ slot = 1 := by unfold ltSlots at hslot; omega
      rcases this with rfl | rfl <;> exact hheld.2
  · rw [if_neg hlt] at hheld ⊢
    rw [if_neg hnamed] at hheld
    simp only [Option.some.injEq, Bool.and_eq_true, decide_eq_true_eq] at hheld
    exact hheld.2

/-- What a fed frame does to the gate. -/
structure Feeds (g g' : H264Gate) (h : FrameHeader) (resetDecoder : Bool) : Prop where
  newer : g.isNewer h.frameSeq = true
  held : h.isKeyframe = false → h.refFrameSeq ≠ refFrameNone → g.references.Holds h
  references : g'.references = g.references.push h
  lastFed : g'.lastFed = some h.frameSeq
  good : g'.good = if h.isKeyframe then [h.frameSeq] else ring g.good h.frameSeq
  announced : g.decoderResetPending = true → resetDecoder = true
  pending : g'.decoderResetPending = false

/-- A frame is refused and changes no reference, or it is fed. -/
theorem onFrame_cases (h : FrameHeader) (nowUs : ℕ) :
    (∃ cause, (g.onFrame h nowUs).2 = .refuse cause ∧ g.Same (g.onFrame h nowUs).1) ∨
      ∃ resetDecoder, (g.onFrame h nowUs).2 = .feed resetDecoder ∧
        g.Feeds (g.onFrame h nowUs).1 h resetDecoder := by
  unfold onFrame
  -- whether the stream uses acknowledged references is not read again below
  have hacked : g.Same (if usesAckedRef h then { g with ackedRefStream := true } else g) := by
    split_ifs <;> exact ⟨rfl, rfl, rfl, rfl⟩
  generalize (if usesAckedRef h then { g with ackedRefStream := true } else g) = ga at hacked ⊢
  obtain ⟨hrefs, hlast, hgood, hpending⟩ := hacked
  have hrefuse : ∀ cause, g.Same (ga.refuse cause h.frameSeq nowUs).1 := by
    intro cause
    obtain ⟨h1, h2, h3, h4⟩ := ga.refuse_same cause h.frameSeq nowUs
    exact ⟨h1.trans hrefs, h2.trans hlast, h3.trans hgood, h4.trans hpending⟩
  dsimp only
  by_cases hstale : (ga.lastFed.any fun l => !seqAfter h.frameSeq l) = true
  · rw [if_pos hstale]
    exact .inl ⟨.stale, rfl, hrefs, hlast, hgood, hpending⟩
  rw [if_neg hstale]
  have hnewer : g.isNewer h.frameSeq = true := by
    unfold isNewer
    rw [← hlast]
    cases hl : ga.lastFed with
    | none => rfl
    | some l => simpa [hl] using hstale
  by_cases hkey : h.isKeyframe = true
  · rw [if_pos hkey]
    refine .inr ⟨true, rfl, hnewer, ?_, ?_, rfl, ?_, fun _ => rfl, rfl⟩
    · intro hnot
      simp [hkey] at hnot
    · unfold push
      rw [if_pos hkey]
      rfl
    · rw [if_pos hkey]
      rfl
  split_ifs with hslot hboth
  · exact .inl ⟨_, refuse_verdict .., hrefuse _⟩
  · exact .inl ⟨_, refuse_verdict .., hrefuse _⟩
  have hmarks : ValidMarks h := by
    refine ⟨fun hm => ?_, fun hm => hboth (by simp [hm.1, hm.2])⟩
    by_contra hle
    exact hslot (Bool.and_eq_true_iff.2 ⟨hm, decide_eq_true (not_lt.1 hle)⟩)
  have hpred : h.isKeyframe = false := by simpa using hkey
  cases hheld : ga.holdsTarget h with
  | none => exact .inl ⟨_, refuse_verdict .., hrefuse _⟩
  | some held =>
    cases held with
    | false => exact .inl ⟨_, refuse_verdict .., hrefuse _⟩
    | true =>
      obtain ⟨hverdict, hcleared⟩ := feedPredicted_verdict ga h
      refine .inr ⟨_, hverdict, hnewer, ?_, ?_, feedPredicted_lastFed ga h, ?_, ?_, hcleared⟩
      · intro _ hnamed
        rw [← hrefs]
        exact holds_of_holdsTarget hheld hnamed
      · rw [feedPredicted_references ga hpred hmarks, hrefs]
      · rw [feedPredicted_good, hgood, if_neg hkey]
      · intro hp
        rw [hpending, hp]

end H264Gate

/-! ### Runs -/

/-- The ring read from its newest entry. -/
theorem H264Gate.ring_reverse {good : List UInt32} (hlen : good.length ≤ goodCap) (seq : UInt32) :
    (ring good seq).reverse = (seq :: good.reverse).take goodCap := by
  have hfull : (good ++ [seq]).reverse = seq :: good.reverse := by simp
  unfold ring
  split_ifs with hlong
  · have hcap : (good ++ [seq]).length - 1 = goodCap := by
      rw [length_append, length_singleton] at hlong ⊢
      omega
    rw [reverse_drop, hcap, hfull]
  · rw [hfull, take_of_length_le]
    rw [← hfull, length_reverse]
    exact not_lt.1 hlong

theorem H264Gate.length_ring {good : List UInt32} (hlen : good.length ≤ goodCap) (seq : UInt32) :
    (ring good seq).length ≤ goodCap := by
  rw [← length_reverse, ring_reverse hlen]
  exact length_take_le _ _

/-- Gate and decoder hold the same references, and the log says so. -/
structure InStep (r : GateRun) : Prop where
  references : r.gate.references = r.decoder
  pending : r.wasReset = true → r.gate.decoderResetPending = true
  lastFed : r.gate.lastFed = r.fed.head?.map fun e => e.header.frameSeq
  named : ∀ e ∈ r.fed, e.header.isKeyframe = false → e.header.refFrameSeq ≠ refFrameNone →
    e.before.Holds e.header
  newer : r.fed.IsChain fun later earlier =>
    seqAfter later.header.frameSeq earlier.header.frameSeq = true
  announced : ∀ e ∈ r.fed, e.afterReset = true → e.resetDecoder = true
  ringLength : r.gate.good.length ≤ goodCap
  ring : ∀ seq, r.decoder.newest = some seq → r.leaves < goodCap →
    r.gate.good.reverse[r.leaves]? = some seq

theorem inStep_new : InStep {} where
  references := rfl
  pending := nofun
  lastFed := rfl
  named := nofun
  newer := .nil
  announced := nofun
  ringLength := by decide
  ring := nofun

variable {r : GateRun}

theorem InStep.reset (h : InStep r) (cause : ResetCause) (frameSeq : UInt32) (nowUs : ℕ) :
    InStep (r.reset cause frameSeq nowUs) := by
  obtain ⟨hrefs, hlast, hgood, hpending⟩ := r.gate.reset_fields cause frameSeq nowUs
  exact
    { references := hrefs
      pending := fun _ => hpending
      lastFed := hlast.trans h.lastFed
      named := h.named
      newer := h.newer
      announced := h.announced
      ringLength := by
        show (r.gate.reset cause frameSeq nowUs).good.length ≤ goodCap
        rw [hgood]
        exact Nat.zero_le _
      ring := nofun }

/-- A change of the gate that leaves its references alone. -/
theorem InStep.same (h : InStep r) {g' : H264Gate} (hsame : r.gate.Same g') :
    InStep { r with gate := g' } := by
  obtain ⟨hrefs, hlast, hgood, hpending⟩ := hsame
  exact
    { references := hrefs.trans h.references
      pending := fun hr => hpending.trans (h.pending hr)
      lastFed := hlast.trans h.lastFed
      named := h.named
      newer := h.newer
      announced := h.announced
      ringLength := hgood ▸ h.ringLength
      ring := by
        intro seq hseq hleaves
        show g'.good.reverse[r.leaves]? = some seq
        rw [hgood]
        exact h.ring seq hseq hleaves }

theorem leaves_cons (gate : H264Gate) (decoder : References) (wasReset : Bool) (e : Fed)
    (fed : List Fed) :
    leaves ⟨gate, decoder, wasReset, e :: fed⟩ =
      if isLeaf e.header then
        (fed.takeWhile fun e => isLeaf e.header).length + 1
      else 0 := by
  unfold leaves
  rw [takeWhile_cons]
  split_ifs <;> simp

/-- A frame that is fed keeps gate and decoder in step. -/
theorem InStep.feeds (h : InStep r) {g' : H264Gate} {hd : FrameHeader} {resetDecoder : Bool}
    (hfeeds : r.gate.Feeds g' hd resetDecoder) :
    InStep ({ r with gate := g' }.answer hd (.feed resetDecoder)) where
  references := by
    show g'.references = r.decoder.push hd
    rw [hfeeds.references, h.references]
  pending := nofun
  lastFed := hfeeds.lastFed
  named := by
    intro e he hkey hnamed
    rcases mem_cons.1 he with rfl | he
    · exact h.references ▸ hfeeds.held hkey hnamed
    · exact h.named e he hkey hnamed
  newer := by
    refine isChain_cons.2 ⟨fun e he => ?_, h.newer⟩
    have hnewer := hfeeds.newer
    rw [isNewer, h.lastFed, Option.mem_def.1 he] at hnewer
    exact hnewer
  announced := by
    intro e he hafter
    rcases mem_cons.1 he with rfl | he
    · exact hfeeds.announced (h.pending hafter)
    · exact h.announced e he hafter
  ringLength := by
    show g'.good.length ≤ goodCap
    rw [hfeeds.good]
    split_ifs
    · exact Nat.succ_le_succ (Nat.zero_le _)
    · exact length_ring h.ringLength _
  ring := by
    intro seq hseq hleaves
    replace hseq : (r.decoder.push hd).newest = some seq := hseq
    show g'.good.reverse[leaves _]? = some seq
    unfold answer at hleaves ⊢
    rw [leaves_cons] at hleaves ⊢
    by_cases hleaf : isLeaf hd = true
    · -- one more frame stands between the newest reference and the end of the ring
      have hkey : ¬hd.isKeyframe = true := by
        intro hk
        simp [isLeaf, hk] at hleaf
      rw [if_pos hleaf] at hleaves ⊢
      rw [push, if_neg hkey, if_pos hleaf] at hseq
      rw [hfeeds.good, if_neg hkey, ring_reverse h.ringLength,
        getElem?_take_of_lt hleaves, getElem?_cons_succ]
      exact h.ring seq hseq (Nat.lt_of_succ_lt hleaves)
    · rw [push_newest _ hleaf] at hseq
      rw [hfeeds.good]
      split_ifs
      · exact hseq
      · rw [ring_reverse h.ringLength, getElem?_take_of_lt (by decide)]
        exact hseq

/-- Every operation keeps gate and decoder in step. -/
theorem InStep.step (h : InStep r) (op : GateOp) : InStep (r.step op) := by
  cases op with
  | frame hd nowUs =>
    unfold GateRun.step
    dsimp only
    rcases r.gate.onFrame_cases hd nowUs with ⟨cause, hverdict, hsame⟩ | ⟨reset, hverdict, hfeeds⟩
    · rw [hverdict]
      exact h.same hsame
    · rw [hverdict]
      exact h.feeds hfeeds
  | reset cause frameSeq nowUs => exact h.reset cause frameSeq nowUs
  | outcome o frameSeq nowUs =>
    cases o with
    | decoded => exact h
    | notOutput => exact h
    | decodeError => exact h.reset .decoderFailure frameSeq nowUs
    | noDecoder => exact h.reset .noDecoder frameSeq nowUs
  | takeRequest => exact h.same ⟨rfl, rfl, rfl, rfl⟩

theorem inStep_run (ops : List GateOp) : InStep (run step {} ops) :=
  run_inv (fun _ op _ h => h.step op) inStep_new

/-- **The gate is sound.** Whatever frames, resets and decoder answers come: a predicted frame
that is fed and names a picture names one the decoder holds, the frames fed are each newer than
the one before, and the first one after a reset tells the decoder to reset. -/
theorem gate_sound (ops : List GateOp) :
    (∀ e ∈ (run GateRun.step {} ops).fed, e.header.isKeyframe = false →
      e.header.refFrameSeq ≠ refFrameNone → e.before.Holds e.header) ∧
    ((run GateRun.step {} ops).fed.IsChain fun later earlier =>
      seqAfter later.header.frameSeq earlier.header.frameSeq = true) ∧
    ∀ e ∈ (run GateRun.step {} ops).fed, e.afterReset = true → e.resetDecoder = true :=
  ⟨(inStep_run ops).named, (inStep_run ops).newer, (inStep_run ops).announced⟩

/-! ### Completeness -/

namespace H264Gate

/-- A predicted frame that passes the checks and whose target is found is fed. -/
theorem onFrame_feeds {g : H264Gate} {h : FrameHeader} (hkey : h.isKeyframe = false)
    (hnewer : g.isNewer h.frameSeq = true) (hmarks : ValidMarks h)
    (hheld : g.holdsTarget h = some true) (nowUs : ℕ) :
    ∃ resetDecoder, (g.onFrame h nowUs).2 = .feed resetDecoder := by
  have hacked : ∀ b, { g with ackedRefStream := b }.holdsTarget h = some true := fun _ => hheld
  have hfresh : ¬(g.lastFed.any fun l => !seqAfter h.frameSeq l) = true := by
    unfold isNewer at hnewer
    cases hl : g.lastFed with
    | none => simp
    | some l => simpa [hl] using hnewer
  have hslot : ¬((marks h || marksTarget h) && decide (ltSlots ≤ (h.slots &&& 0x03).toNat)) =
      true := by
    rw [Bool.and_eq_true, decide_eq_true_eq]
    exact fun hm => absurd (hmarks.1 hm.1) (not_lt.2 hm.2)
  have hboth : ¬(marks h && decide (h.flags &&& frameFlagMarkTarget ≠ 0)) = true := by
    rw [Bool.and_eq_true, decide_eq_true_eq]
    exact hmarks.2
  have hpred : ¬h.isKeyframe = true := by simp [hkey]
  unfold onFrame
  by_cases hacks : usesAckedRef h = true
  · simp only [if_pos hacks, if_neg hfresh, if_neg hpred, if_neg hslot, if_neg hboth, hacked true]
    exact ⟨_, (feedPredicted_verdict _ h).1⟩
  · simp only [if_neg hacks, if_neg hfresh, if_neg hpred, if_neg hslot, if_neg hboth, hheld]
    exact ⟨_, (feedPredicted_verdict _ h).1⟩

end H264Gate

/-- **A frame that names the newest reference is fed**, while fewer than 128 frames were fed
after that reference. -/
theorem gate_complete (ops : List GateOp) {h : FrameHeader} (nowUs : ℕ)
    (hkey : h.isKeyframe = false)
    (hnewer : ∀ e ∈ (run GateRun.step {} ops).fed.head?,
      seqAfter h.frameSeq e.header.frameSeq = true)
    (hmarks : H264Gate.ValidMarks h) (hshort : h.flags &&& frameFlagTargetIsLt = 0)
    (hnamed : h.refFrameSeq ≠ refFrameNone)
    (hnewest : (run GateRun.step {} ops).decoder.newest = some h.refFrameSeq)
    (hleaves : (run GateRun.step {} ops).leaves < goodCap) :
    ∃ resetDecoder, ((run GateRun.step {} ops).gate.onFrame h nowUs).2 = .feed resetDecoder := by
  have hstep := inStep_run ops
  refine onFrame_feeds hkey ?_ hmarks ?_ nowUs
  · rw [isNewer, hstep.lastFed]
    cases hhead : (run step {} ops).fed.head? with
    | none => rfl
    | some e => exact hnewer e hhead
  · -- the ring still holds the reference, `leaves` places before its end
    have hring := hstep.ring _ hnewest hleaves
    have hmem : h.refFrameSeq ∈ (run step {} ops).gate.good :=
      mem_reverse.1 (mem_of_getElem? hring)
    have hgate : (run step {} ops).gate.newestRef = some h.refFrameSeq :=
      (congrArg newest hstep.references).trans hnewest
    unfold holdsTarget
    rw [if_neg (not_not.2 hshort), if_neg hnamed, hgate, contains_iff_mem.2 hmem]
    simp

/-- A frame that consists of one fragment. -/
def wholeFrame (frameSeq refFrameSeq : UInt32) (flags : UInt8) : FrameHeader :=
  ⟨frameSeq, 0, 1, noAck, 0, flags, 0, refFrameSeq⟩

/-- An IDR, then `n` frames that predict from it and that nothing may reference. -/
def leafRun (n : ℕ) : List GateOp :=
  .frame (wholeFrame 0 refFrameNone frameFlagIdr) 0 ::
    (List.range n).map fun i => .frame (wholeFrame (.ofNat (i + 1)) 0 frameFlagNonRef) 0

theorem gate_complete_leafRun :
    (run GateRun.step {} (leafRun 127)).leaves = 127 ∧
      ∃ resetDecoder, ((run GateRun.step {} (leafRun 127)).gate.onFrame
        (wholeFrame 128 0 0) 0).2 = .feed resetDecoder :=
  ⟨by decide +kernel, gate_complete (leafRun 127) 0 (by decide) (by decide +kernel)
    (by decide +kernel) (by decide) (by decide) (by decide +kernel) (by decide +kernel)⟩

/-- One leaf more, and the frame that names the newest reference is refused. -/
theorem newest_reference_forgotten :
    (run GateRun.step {} (leafRun 128)).leaves = 128 ∧
      (run GateRun.step {} (leafRun 128)).decoder.newest = some 0 ∧
      ((run GateRun.step {} (leafRun 128)).fed.head?.map fun e => e.header.frameSeq) = some 128 ∧
      H264Gate.ValidMarks (wholeFrame 129 0 0) ∧
      ((run GateRun.step {} (leafRun 128)).gate.onFrame (wholeFrame 129 0 0) 0).2 =
        .refuse .noReference := by
  decide +kernel

end Ghostframe.Client
