import Ghostframe.Lib.Bits

/-!
# Which CDF 5/3 passes of a tile have arrived

Every datagram of one generation of a tile carries the `frame_seq` of the
generation's first datagram as its label, 31 bits in serial order.

* `classifyArrival`: the label orders an arrival against the generation held, the
  4-bit generation number only breaks ties;
* `labelRunsAhead`, `labelExpired`: labels too far from the newest one received;
* `applyCdf53Arrival`: the bookkeeping of one arrival, and the passes to ask for.
-/

namespace Ghostframe.Client

/-- `FRAME_SEQ_MASK`. -/
def frameSeqMask : UInt32 := 0x7FFFFFFF

/-- `LABEL_WINDOW`. -/
def labelWindow : ℕ := 2 ^ 12

/-- `LABEL_EXPIRY`. -/
def labelExpiry : ℕ := 2 ^ 29

/-- The 31-bit distance from `b` forward to `a`. -/
def forward31 (a b : UInt32) : ℕ := ((a - b) &&& frameSeqMask).toNat

/-- `forward`. -/
def forwardMasked (a b : UInt32) : ℕ :=
  (((a &&& frameSeqMask) - (b &&& frameSeqMask)) &&& frameSeqMask).toNat

/-- `generation_is_newer`, on four bits. -/
def generationIsNewer (candidate current : UInt8) : Bool :=
  let forward := ((candidate - current) &&& 0x0F).toNat
  decide (forward ≠ 0) && decide (forward < 8)

/-- `frame_seq_is_newer`. -/
def frameSeqIsNewer (a b : UInt32) : Bool :=
  decide (forward31 a b ≠ 0) && decide (forward31 a b < 2 ^ 30)

/-- How an arrival relates to the generation held. -/
inductive ArrivalOrder
  | current
  | newGeneration
  | stale
  deriving DecidableEq

/-- `label_runs_ahead`. -/
def labelRunsAhead (label : UInt32) (newestReceived : Option UInt32) : Bool :=
  newestReceived.any fun newest =>
    decide (labelWindow < forwardMasked label newest) &&
      decide (forwardMasked label newest < 2 ^ 30)

/-- `label_expired`. -/
def labelExpired (heldLabel : UInt32) (newestReceived : Option UInt32) : Bool :=
  newestReceived.any fun newest =>
    decide (labelExpiry < forwardMasked newest heldLabel) &&
      decide (forwardMasked newest heldLabel < 2 ^ 31 - labelWindow)

/-- `classify_arrival`. -/
def classifyArrival (heldGeneration : UInt8) (heldFrameSeq : UInt32) (generation : UInt8)
    (frameSeq : UInt32) : ArrivalOrder :=
  let new := frameSeq &&& frameSeqMask
  let old := heldFrameSeq &&& frameSeqMask
  if new ≠ old then if frameSeqIsNewer new old then .newGeneration else .stale
  else if generation = heldGeneration then .current
  else if generationIsNewer generation heldGeneration then .newGeneration
  else .stale

/-- `arrival_is_stale`. -/
def arrivalIsStale (heldGeneration : UInt8) (heldFrameSeq : UInt32) (generation : UInt8)
    (frameSeq : UInt32) : Bool :=
  decide (classifyArrival heldGeneration heldFrameSeq generation frameSeq = .stale)

/-- What is known of one tile's passes. -/
structure CoverageEntry where
  generation : UInt8
  frameSeq : UInt32
  passMask : UInt16 := 0
  nackedMask : UInt16 := 0
  presentPasses : Option UInt16 := none
  lastChangeUs : ℕ
  sweepAttempts : UInt8 := 0
  highestPassSeen : Option UInt8 := none
  deriving DecidableEq

/-- What an arrival does. -/
structure ArrivalOutcome where
  entry : CoverageEntry
  nackPasses : List UInt8
  newGeneration : Bool
  committed : Bool
  deriving DecidableEq

namespace CoverageEntry

variable (e : CoverageEntry) (passIdx : UInt8)

/-- The bitmap and the gap evidence an arrival brings. -/
def note (presentPasses : Option UInt16) : CoverageEntry :=
  { e with
    presentPasses := presentPasses.or e.presentPasses
    highestPassSeen :=
      if passIdx.toNat < 14 then some ((e.highestPassSeen.map fun h => max h passIdx).getD passIdx)
      else e.highestPassSeen }

/-- The pass could not be validated: ask for it once. -/
def refuse : CoverageEntry × List UInt8 :=
  if hasBit e.nackedMask passIdx.toNat then (e, [])
  else ({ e with nackedMask := withBit e.nackedMask passIdx.toNat }, [passIdx])

/-- The lower passes that are missing and not asked for yet. -/
def missingBelow : UInt16 :=
  ((1 <<< UInt16.ofNat passIdx.toNat) - 1) &&& e.presentPasses.getD 1 &&& ~~~e.passMask &&&
    ~~~e.nackedMask

/-- The pass is there; a first arrival in a generation held shows which lower passes are missing. -/
def accept (nowUs : ℕ) (isNewGeneration : Bool) :
    CoverageEntry × List UInt8 :=
  let landed := { e with passMask := withBit e.passMask passIdx.toNat, sweepAttempts := 0 }
  if hasBit e.passMask passIdx.toNat then (landed, [])
  else
    let landed := { landed with lastChangeUs := nowUs }
    if isNewGeneration then (landed, [])
    else
      let missing := landed.missingBelow passIdx
      ({ landed with nackedMask := landed.nackedMask ||| missing },
        ((List.range passIdx.toNat).filter fun p => hasBit missing p).map UInt8.ofNat)

end CoverageEntry

variable (prev : Option CoverageEntry)

/-- The order of an arrival against what is held, if anything. -/
def arrivalOrder (generation : UInt8) (frameSeq : UInt32) :
    ArrivalOrder :=
  match prev with
  | none => .newGeneration
  | some entry => classifyArrival entry.generation entry.frameSeq generation frameSeq

/-- The entry an arrival adds to. -/
def arrivalEntry (isNewGeneration : Bool) (generation : UInt8)
    (frameSeq : UInt32) (nowUs : ℕ) : CoverageEntry :=
  let fresh : CoverageEntry :=
    { generation := generation, frameSeq := frameSeq, lastChangeUs := nowUs }
  match prev with
  | some entry => if isNewGeneration then fresh else entry
  | none => fresh

/-- `apply_cdf53_arrival`. -/
def applyCdf53Arrival (generation passIdx : UInt8)
    (frameSeq : UInt32) (nowUs : ℕ) (prevalidationOk : Bool) (presentPasses : Option UInt16) :
    ArrivalOutcome :=
  let order := arrivalOrder prev generation frameSeq
  let isNewGeneration := decide (order = .newGeneration)
  let base := arrivalEntry prev isNewGeneration generation frameSeq nowUs
  if order = .stale then ⟨base, [], false, false⟩
  else
    let e := base.note passIdx presentPasses
    if prevalidationOk then
      let accepted := e.accept passIdx nowUs isNewGeneration
      ⟨accepted.1, accepted.2, isNewGeneration, true⟩
    else
      -- a new generation is believed once a payload of it has been validated
      let refused := e.refuse passIdx
      ⟨if isNewGeneration then prev.getD refused.1 else refused.1, refused.2, false,
        !isNewGeneration⟩

/-! ### The label of the entry an arrival leaves -/

variable (e : CoverageEntry) (passIdx : UInt8)

@[simp] theorem CoverageEntry.frameSeq_note
    (presentPasses : Option UInt16) : (e.note passIdx presentPasses).frameSeq = e.frameSeq := rfl

@[simp] theorem CoverageEntry.frameSeq_refuse :
    (e.refuse passIdx).1.frameSeq = e.frameSeq := by
  unfold refuse
  split_ifs <;> rfl

@[simp] theorem CoverageEntry.frameSeq_accept (nowUs : ℕ)
    (isNewGeneration : Bool) :
    (e.accept passIdx nowUs isNewGeneration).1.frameSeq = e.frameSeq := by
  unfold accept
  split_ifs <;> rfl

theorem mask_eq_of_current {e : CoverageEntry} {generation : UInt8} {frameSeq : UInt32}
    (h : classifyArrival e.generation e.frameSeq generation frameSeq = .current) :
    frameSeq &&& frameSeqMask = e.frameSeq &&& frameSeqMask := by
  by_contra hne
  unfold classifyArrival at h
  rw [if_pos hne] at h
  split_ifs at h

/-- **What an arrival that is not stale commits carries the arrival's label**, and a validated pass
is always committed. -/
theorem applyCdf53Arrival_spec {prev : Option CoverageEntry} {generation : UInt8}
    {frameSeq : UInt32} (hns : arrivalOrder prev generation frameSeq ≠ .stale) (passIdx : UInt8)
    (nowUs : ℕ) (ok : Bool) (presentPasses : Option UInt16) :
    let r := applyCdf53Arrival prev generation passIdx frameSeq nowUs ok presentPasses
    (ok = true → r.committed = true) ∧
      (r.committed = true → r.entry.frameSeq &&& frameSeqMask = frameSeq &&& frameSeqMask) := by
  dsimp only
  unfold applyCdf53Arrival
  cases horder : arrivalOrder prev generation frameSeq with
  | stale => exact absurd horder hns
  | newGeneration =>
    cases ok with
    | true =>
      refine ⟨fun _ => rfl, fun _ => ?_⟩
      cases prev <;> simp [arrivalEntry]
    | false =>
      refine ⟨nofun, ?_⟩
      intro h
      simp at h
  | current =>
    cases prev with
    | none => simp [arrivalOrder] at horder
    | some e =>
      have hmask := mask_eq_of_current horder
      cases ok with
      | true => exact ⟨fun _ => rfl, fun _ => by simp [arrivalEntry, hmask]⟩
      | false => exact ⟨nofun, fun _ => by simp [arrivalEntry, hmask]⟩

end Ghostframe.Client
