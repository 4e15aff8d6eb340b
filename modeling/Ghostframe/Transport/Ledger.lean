import Ghostframe.Lib.Dict
import Ghostframe.Transport.Content

/-!
# The transmission ledger

`TransmissionLedger` accounts for every transmission until it is acknowledged,
judged lost or taken back, independently of whether its content is still wanted.

* `record`, `markDeparted`: a transmission enters the ledger, then leaves the
  send queue and gets the next departure index;
* `resolveAt`: an acknowledgement, of an outstanding record or of a tombstone;
* `detectLossesAt`: the loss verdicts of the packet and time thresholds, judged
  only against the newest acknowledged departure;
* the other ways out, and the bookkeeping around them.

A `VecDeque` is a list whose head is its front. A loop that looks at
`departed_order[i]` and either pops the front (when `i = 0`) or moves on is a
recursion on the entries not yet looked at, with the `i` entries passed so far
as an argument. Rate marks (`RateMark`) are measurement only and are left out.
-/

namespace Ghostframe.Transport

/-- Why a transmission was declared lost. -/
inductive LossReason
  | packet
  | time
  | pto
  deriving DecidableEq

/-- Which rule judged a packet-threshold verdict. -/
inductive ReoBranch
  | openWindow
  | depth
  | quiet
  deriving DecidableEq

/-- What was sent, and what it was sent for. -/
structure Transmission where
  emitUs : ℕ
  wireBytes : ℕ
  content : Content
  departUs : Option ℕ
  depIdx : Option ℕ
  deriving DecidableEq

/-- A verdict as `detect_losses_at` reports it. -/
abbrev LostTransmission := WireSeq × Transmission × LossReason

/-- What an acknowledgement turned out to refer to. -/
inductive Resolution
  | live (tx : Transmission)
  | late (tx : Transmission) (fecPossible : Bool)
  deriving DecidableEq

/-- A verdict kept so a late acknowledgement can be recognised. -/
structure Tombstone where
  tx : Transmission
  packetVerdictNo : Option ℕ
  reason : LossReason
  largestIdxAtVerdict : Option ℕ
  largestAtAtVerdict : Option Instant
  largestArrivalAtVerdict : Option Instant
  departed : Option Instant
  deriving DecidableEq

/-- The ledger's counters. -/
structure LedgerStats where
  unknownAcks : ℕ := 0
  capacityEvictions : ℕ := 0
  ackedAfterDeclaredLost : ℕ := 0
  tombstoneEvictions : ℕ := 0
  expiredBeforeDeparture : ℕ := 0
  departuresStamped : ℕ := 0
  evictedBeforeDeparture : ℕ := 0
  forgottenBeforeDeparture : ℕ := 0
  forgottenWithoutVerdict : ℕ := 0
  lostPacketThreshold : ℕ := 0
  lostTimeThreshold : ℕ := 0
  lostPto : ℕ := 0
  spuriousLosses : ℕ := 0
  lateAcksFecPossible : ℕ := 0
  kPktRaises : ℕ := 0
  reoWndRaises : ℕ := 0
  reoLearnedPacket : ℕ := 0
  reoLearnedTime : ℕ := 0
  spuriousDispMax : ℕ := 0
  spuriousGapUsMax : ℕ := 0
  reoStallSkips : ℕ := 0
  reoJudgedDepth : ℕ := 0
  reoJudgedQuiet : ℕ := 0
  deriving DecidableEq

/-- A transmission the ledger has not resolved. -/
structure Record where
  recordedAt : Instant
  departed : Option Instant
  tx : Transmission
  deriving DecidableEq

/-! ### Constants -/

def kPktInitial : ℕ := 3
def kPktMax : ℕ := 8
def adaptWindow : ℕ := 64
def adaptMinVerdicts : ℕ := 32
def adaptSpuriousPercent : ℕ := 10
def reoStepDivisor : ℕ := 8
def reoDepthMax : ℕ := 64
def reoStepFallback : Duration := fromMillis 5
def reoCapFallback : Duration := fromMillis 50
def reoCapDivisor : ℕ := 2
def reoPersist : ℕ := 16
def reoQuietSpan : Duration := fromSecs 30
def parityRingCap : ℕ := 16384
def scanDeadBudget : ℕ := 4096
def burstReorderFactor : ℕ := 3
def maxProbeBursts : ℕ := 16
def patientScanLimit : ℕ := 2048

/-- The ledger's state. -/
structure TransmissionLedger where
  records : Dict WireSeq Record := Dict.empty
  order : List WireSeq := []
  departedOrder : List WireSeq := []
  capacity : ℕ
  stats : LedgerStats := {}
  tombstones : Dict WireSeq Tombstone := Dict.empty
  tombstoneOrder : List WireSeq := []
  nextDepIdx : ℕ := 0
  probeBursts : List (Instant × Instant) := []
  largestAcked : Option ℕ := none
  largestAckedAt : Option Instant := none
  largestAckedArrival : Option Instant := none
  reoWnd : Duration := 0
  freezeReoWnd : Bool := false
  reoRecoveries : ℕ := 0
  reoRecoveryPoint : ℕ := 0
  reoDepth : ℕ := 0
  lastTimeThreshold : Option Duration := none
  lastReoRaise : Option Instant := none
  lastSpuriousAck : Option Instant := none
  parityDeparted : Dict WireSeq Instant := Dict.empty
  parityOrder : List (WireSeq × Instant) := []
  kPkt : ℕ := kPktInitial
  freezeKPkt : Bool := false
  verdicts : ℕ := 0
  spuriousBits : BitVec 64 := 0#64
  departedBytes : ℕ := 0
  deriving DecidableEq

namespace TransmissionLedger

/-- `TransmissionLedger::new`. -/
def new (capacity : ℕ) : TransmissionLedger := { capacity := capacity }

variable (l : TransmissionLedger)

/-- The number of unresolved transmissions. -/
def len : ℕ := l.records.size

variable (ws : WireSeq)

/-- Some unresolved transmission has this number. -/
def Outstanding : Prop := ∃ r, l.records.get? ws = some r

/-- The unresolved transmission under this number has left the send queue. -/
def isDeparted : Bool :=
  match l.records.get? ws with
  | some r => r.departed.isSome
  | none => false

/-! ### Recording and departure -/

variable (r : Record)

/-- A record leaves the ledger: its bytes are no longer in flight. -/
def leave : TransmissionLedger :=
  if r.departed.isSome then { l with departedBytes := l.departedBytes - r.tx.wireBytes } else l

/-- Drop entries of resolved records from the order queues once they dominate. -/
def compactIfSparse : TransmissionLedger :=
  let live := l.records.size
  let slack := 2 * l.capacity + 64
  let l1 :=
    if l.order.length > live + slack then
      { l with order := l.order.filter fun w => l.records.contains w }
    else l
  if l1.departedOrder.length > live + slack then
    { l1 with departedOrder := l1.departedOrder.filter fun w => l1.isDeparted w }
  else l1

/-- The capacity cap: the oldest recorded number goes first. -/
def evictOldest (oldest : WireSeq) : TransmissionLedger :=
  match l.records.get? oldest with
  | none => l
  | some r =>
    let l1 := { l with records := l.records.erase oldest }.leave r
    { l1 with
      stats :=
        { l1.stats with
          capacityEvictions := l1.stats.capacityEvictions + 1
          evictedBeforeDeparture :=
            l1.stats.evictedBeforeDeparture + if r.departed.isNone then 1 else 0 } }

/-- The eviction loop of `record`, over the recording order. -/
def evictOver : List WireSeq → TransmissionLedger → TransmissionLedger
  | [], l => { l with order := [] }
  | oldest :: rest, l =>
    if l.records.size > l.capacity then evictOver rest (l.evictOldest oldest)
    else { l with order := oldest :: rest }

/-- Store a fresh record; one already under the number is replaced and counts as evicted. -/
def putRecord : TransmissionLedger :=
  match l.records.get? ws with
  | none => { l with records := l.records.insert ws r }
  | some old =>
    let l1 := { l with records := l.records.insert ws r }.leave old
    { l1 with
      stats := { l1.stats with capacityEvictions := l1.stats.capacityEvictions + 1 }
      order := l1.order.filter fun w => w ≠ ws }

/-- `record`: the ledger is told of a transmission, before it departs. -/
def record (at_ : Instant) (tx : Transmission) : TransmissionLedger :=
  let r : Record :=
    { recordedAt := at_, departed := none, tx := { tx with departUs := none, depIdx := none } }
  let l1 := l.putRecord ws r
  (evictOver (l1.order ++ [ws]) l1).compactIfSparse

/-- `mark_departed`: the transmission left the send queue, with the next departure index. -/
def markDeparted (at_ : Instant) (departUs : ℕ) : TransmissionLedger × Bool :=
  match l.records.get? ws with
  | none => (l, false)
  | some r =>
    if r.departed.isSome then (l, false)
    else
      let r' : Record :=
        { r with
          departed := some at_
          tx := { r.tx with departUs := some departUs, depIdx := some l.nextDepIdx } }
      ({ l with
          records := l.records.insert ws r'
          nextDepIdx := l.nextDepIdx + 1
          departedBytes := l.departedBytes + r.tx.wireBytes
          departedOrder := l.departedOrder ++ [ws]
          stats := { l.stats with departuresStamped := l.stats.departuresStamped + 1 } }, true)

/-! ### Taking transmissions back -/

/-- `take_undeparted`: the sender takes back a transmission that never left. -/
def takeUndeparted : TransmissionLedger × Option Transmission :=
  match l.records.get? ws with
  | none => (l, none)
  | some r =>
    if r.departed.isSome then (l, none)
    else
      ({ l with
          records := l.records.erase ws
          stats :=
            { l.stats with forgottenBeforeDeparture := l.stats.forgottenBeforeDeparture + 1 } },
        some r.tx)

/-- `forget_undeparted`: the same, answering only whether there was one. -/
def forgetUndeparted : TransmissionLedger × Bool :=
  ((l.takeUndeparted ws).1, (l.takeUndeparted ws).2.isSome)

/-- `forget_outstanding`: the sender takes a record back with no verdict. -/
def forgetOutstanding : TransmissionLedger × Option Transmission :=
  match l.records.get? ws with
  | none => (l, none)
  | some r =>
    let l1 := { l with records := l.records.erase ws }.leave r
    ({ l1 with
        stats :=
          { l1.stats with forgottenWithoutVerdict := l1.stats.forgottenWithoutVerdict + 1 } },
      some r.tx)

/-- `discard_undeparted`: drop every record that never left, answering how many. -/
def discardUndeparted : TransmissionLedger × ℕ :=
  let kept := l.records.retain fun _ r => r.departed.isSome
  ({ l with records := kept }, l.records.size - kept.size)

/-- `reset_session`: everything but the capacity, the counters and the test freezes. -/
def resetSession : TransmissionLedger :=
  { capacity := l.capacity
    stats := l.stats
    freezeReoWnd := l.freezeReoWnd
    freezeKPkt := l.freezeKPkt }

/-! ### Probe bursts and parity departures -/

/-- Append a burst span, dropping the oldest at the cap. -/
def pushBurst (start stop : Instant) : TransmissionLedger :=
  let kept :=
    if l.probeBursts.length ≥ maxProbeBursts then l.probeBursts.drop 1 else l.probeBursts
  { l with probeBursts := kept ++ [(start, stop)] }

/-- `mark_probe_burst`: extend the newest span, or open a new one. -/
def markProbeBurst (start stop : Instant) : TransmissionLedger :=
  match l.probeBursts.getLast? with
  | some last =>
    if start ≤ last.2 then
      { l with
        probeBursts := l.probeBursts.dropLast ++ [(min last.1 start, max last.2 stop)] }
    else l.pushBurst start stop
  | none => l.pushBurst start stop

/-- `in_probe_burst`. -/
def inProbeBurst (at_ : Instant) : Bool :=
  l.probeBursts.any fun b => decide (at_ ≥ b.1) && decide (at_ ≤ b.2)

/-- `is_patient`: probe material that departed inside a burst waits longer. -/
def isPatient (tx : Transmission) (departed : Instant) : Bool :=
  !tx.content.isTile && l.inProbeBurst departed

/-- The expiry loop of `note_parity_departed`. -/
def expireParity (at_ : Instant) (retain : Duration) :
    List (WireSeq × Instant) → TransmissionLedger → TransmissionLedger
  | [], l => { l with parityOrder := [] }
  | (g, t) :: rest, l =>
    if (rest.length + 1 ≤ parityRingCap ∧ at_ - t ≤ retain) then
      { l with parityOrder := (g, t) :: rest }
    else if l.parityDeparted.get? g = some t then
      expireParity at_ retain rest { l with parityDeparted := l.parityDeparted.erase g }
    else expireParity at_ retain rest l

/-- `note_parity_departed`. -/
def noteParityDeparted (groupFirst : WireSeq) (at_ : Instant)
    (retain : Duration) : TransmissionLedger :=
  let l1 := expireParity at_ retain l.parityOrder l
  { l1 with
    parityDeparted := l1.parityDeparted.insert groupFirst at_
    parityOrder := l1.parityOrder ++ [(groupFirst, at_)] }

/-- The group whose parity departed and that a `wire_seq` can be a member of. -/
def parityGroupOf : Option (WireSeq × Instant) :=
  (List.range fecGroupSizeK).findSome? fun i =>
    let first := ws - UInt32.ofNat i
    (l.parityDeparted.get? first).map fun t => (first, t)

/-- `fec_possible`: could this late acknowledgement be of a datagram rebuilt from parity? -/
def fecPossible (ack : Option (Instant × Duration)) : Bool :=
  match l.parityGroupOf ws with
  | none => false
  | some (first, left) =>
    if (match ack with
        | some (now, minRtt) => decide (now - left < minRtt)
        | none => false) then false
    else
      ((List.range fecGroupSizeK).map fun i => first + UInt32.ofNat i).all fun m =>
        decide (m = ws) || (!l.records.contains m && !l.tombstones.contains m)

/-! ### Acknowledgements -/

/-- `advance_largest_acked`. -/
def advanceLargestAcked (idx : ℕ) (at_ : Instant) (arrival : Option Instant) : TransmissionLedger :=
  if l.largestAcked.all fun m => decide (idx > m) then
    { l with
      largestAcked := some idx
      largestAckedAt := some at_
      largestAckedArrival := arrival }
  else l

/-- `learn_reordering`: a contradicted verdict raises the depth and the window. -/
def learnReordering (now : Option Instant) (minRtt : Option Duration)
    (extent : Duration) (disp : ℕ) : TransmissionLedger :=
  let l1 := { l with reoRecoveries := 0, lastSpuriousAck := now }
  if l1.freezeReoWnd then l1
  else
    let l2 := { l1 with reoDepth := max l1.reoDepth (min (disp + 1) reoDepthMax) }
    let step := minRtt.elim reoStepFallback fun m => m / reoStepDivisor
    let cap := minRtt.elim reoCapFallback fun m => min (m / reoCapDivisor) reoCapFallback
    let target := min (max extent step) cap
    let round := minRtt.getD (step * reoStepDivisor)
    let due :=
      match l2.lastReoRaise, now with
      | some prev, some n => decide (n - prev ≥ round)
      | _, _ => true
    let next := min (l2.reoWnd + step) cap
    if target ≥ l2.reoWnd + step / 2 ∧ due = true then
      { l2 with
        reoWnd := next
        lastReoRaise := now
        stats := { l2.stats with reoWndRaises := l2.stats.reoWndRaises + 1 } }
    else l2

/-- `u64::count_ones`. -/
def countOnes (b : BitVec 64) : ℕ := (List.range 64).countP fun i => b.getLsbD i

/-- `note_spurious`: mark a packet verdict as contradicted; too many raise the threshold. -/
def noteSpurious (verdictNo : ℕ) : TransmissionLedger :=
  if l.verdicts - verdictNo ≥ adaptWindow then l
  else
    let bits := l.spuriousBits ||| (1#64 <<< (verdictNo % adaptWindow))
    let inWindow := min l.verdicts adaptWindow
    let marked := countOnes bits
    if inWindow ≥ adaptMinVerdicts ∧ marked * 100 > inWindow * adaptSpuriousPercent then
      if l.freezeKPkt = false ∧ l.kPkt < kPktMax then
        { l with
          kPkt := l.kPkt + 1
          stats := { l.stats with kPktRaises := l.stats.kPktRaises + 1 }
          spuriousBits := 0#64 }
      else { l with spuriousBits := 0#64 }
    else { l with spuriousBits := bits }

/-- Only a packet-threshold verdict has a number to mark. -/
def noteSpuriousVerdict : Option ℕ → TransmissionLedger
  | some n => l.noteSpurious n
  | none => l

/-- What a late acknowledgement that is no FEC recovery teaches the thresholds. -/
def learnFromLate (t : Tombstone) (ack : Option (Instant × Duration))
    (disp : ℕ) (extent lag : Duration) (stalled : Bool) : TransmissionLedger :=
  let l1 :=
    { l with
      stats :=
        { l.stats with
          spuriousDispMax := max l.stats.spuriousDispMax disp
          spuriousGapUsMax := max l.stats.spuriousGapUsMax (asMicros extent) } }
  let minRtt := ack.map Prod.snd
  let known := minRtt.all fun m => decide (m ≠ 0)
  let l2 :=
    if t.tx.content.isPad = false ∧ t.reason ≠ .pto ∧ known = true then
      if stalled then
        { l1 with stats := { l1.stats with reoStallSkips := l1.stats.reoStallSkips + 1 } }
      else
        let l3 :=
          if t.reason = .packet then
            { l1 with
              stats := { l1.stats with reoLearnedPacket := l1.stats.reoLearnedPacket + 1 } }
          else
            { l1 with stats := { l1.stats with reoLearnedTime := l1.stats.reoLearnedTime + 1 } }
        l3.learnReordering (ack.map Prod.fst) minRtt (max extent lag) disp
    else l1
  l2.noteSpuriousVerdict t.packetVerdictNo

/-- Probe padding is acknowledged but never moves the reference; nor does what never departed. -/
def moveReference (tx : Transmission) (departed : Option Instant)
    (ack : Option (Instant × Duration)) : TransmissionLedger :=
  match tx.depIdx, departed, tx.content.isPad with
  | some idx, some at_, false => l.advanceLargestAcked idx at_ (ack.map Prod.fst)
  | _, _, _ => l

/-- An acknowledgement of an outstanding record. -/
def resolveLive
    (ack : Option (Instant × Duration)) : TransmissionLedger :=
  ({ l with records := l.records.erase ws }.moveReference r.tx r.departed ack).leave r

/-- A tombstone is taken by its late acknowledgement. -/
def exhume : TransmissionLedger :=
  { l with
    tombstones := l.tombstones.erase ws
    stats :=
      { l.stats with
        ackedAfterDeclaredLost := l.stats.ackedAfterDeclaredLost + 1
        spuriousLosses := l.stats.spuriousLosses + 1 } }

/-- An acknowledgement of a transmission already declared lost. -/
def resolveLate (t : Tombstone)
    (ack : Option (Instant × Duration)) : TransmissionLedger × Bool :=
  let l1 := l.exhume ws
  -- how far the newest acknowledged departure was past this one at the verdict
  let (disp, extent) :=
    match t.largestIdxAtVerdict, t.tx.depIdx, t.largestAtAtVerdict, t.departed with
    | some m, some i, some la, some d => (m - i, la - d)
    | _, _, _, _ => (0, 0)
  let lag :=
    match ack, t.largestArrivalAtVerdict with
    | some (now, _), some a => now - a
    | _, _ => 0
  let stalled :=
    decide (l1.largestAcked = t.largestIdxAtVerdict)
      && l1.lastTimeThreshold.any fun thr => decide (thr ≠ 0) && decide (lag ≥ thr)
  let l2 := l1.moveReference t.tx t.departed ack
  if l2.fecPossible ws ack then
    ({ l2 with
        stats := { l2.stats with lateAcksFecPossible := l2.stats.lateAcksFecPossible + 1 } }, true)
  else (l2.learnFromLate t ack disp extent lag stalled, false)

/-- `resolve_at`: an acknowledgement names `ws`. -/
def resolveAt (ack : Option (Instant × Duration)) :
    TransmissionLedger × Option Resolution :=
  match l.records.get? ws with
  | some r => (l.resolveLive ws r ack, some (.live r.tx))
  | none =>
    match l.tombstones.get? ws with
    | some t => ((l.resolveLate ws t ack).1, some (.late t.tx (l.resolveLate ws t ack).2))
    | none =>
      ({ l with stats := { l.stats with unknownAcks := l.stats.unknownAcks + 1 } }, none)

/-! ### Loss verdicts -/

/-- The eviction loop of `declare_lost`, over the tombstone order. -/
def evictTombstones : List WireSeq → TransmissionLedger → TransmissionLedger
  | [], l => { l with tombstoneOrder := [] }
  | oldest :: rest, l =>
    if l.tombstones.size > l.capacity then
      if l.tombstones.contains oldest then
        evictTombstones rest
          { l with
            tombstones := l.tombstones.erase oldest
            stats := { l.stats with tombstoneEvictions := l.stats.tombstoneEvictions + 1 } }
      else evictTombstones rest l
    else { l with tombstoneOrder := oldest :: rest }

/-- The counters a verdict raises. -/
def countVerdict (s : LedgerStats) (reason : LossReason) (departed : Option Instant) :
    LedgerStats :=
  let s1 :=
    { s with
      expiredBeforeDeparture := s.expiredBeforeDeparture + if departed.isNone then 1 else 0 }
  match reason with
  | .packet => { s1 with lostPacketThreshold := s1.lostPacketThreshold + 1 }
  | .time => { s1 with lostTimeThreshold := s1.lostTimeThreshold + 1 }
  | .pto => { s1 with lostPto := s1.lostPto + 1 }

variable (reason : LossReason)

/-- A packet-threshold verdict takes the next number, and its bit in the window starts clear. -/
def numberVerdict : TransmissionLedger × Option ℕ :=
  if reason = .packet then
    let no := l.verdicts + 1
    ({ l with
        verdicts := no
        spuriousBits := l.spuriousBits &&& ~~~(1#64 <<< (no % adaptWindow)) }, some no)
  else (l, none)

/-- Remember a verdict, within the capacity. -/
def entomb (t : Tombstone) : TransmissionLedger :=
  evictTombstones (l.tombstoneOrder ++ [ws]) { l with tombstones := l.tombstones.insert ws t }

/-- The record of a verdict leaves and is counted. -/
def strike : TransmissionLedger :=
  let l1 := { l with records := l.records.erase ws }.leave r
  { l1 with stats := countVerdict l1.stats reason r.departed }

/-- What is remembered of a verdict on `r`. -/
def tombstoneOf (packetVerdictNo : Option ℕ) : Tombstone where
  tx := r.tx
  packetVerdictNo := packetVerdictNo
  reason := reason
  largestIdxAtVerdict := l.largestAcked
  largestAtAtVerdict := l.largestAckedAt
  largestArrivalAtVerdict := l.largestAckedArrival
  departed := r.departed

/-- A verdict on the record `r`: it becomes a tombstone. -/
def bury : TransmissionLedger :=
  let numbered := (l.strike ws r reason).numberVerdict reason
  numbered.1.entomb ws (l.tombstoneOf r reason numbered.2)

/-- `declare_lost`: a verdict on `ws`, if it is outstanding; `lost` collects the reports. -/
def declareLost
    (lost : List LostTransmission) : TransmissionLedger × List LostTransmission :=
  match l.records.get? ws with
  | none => (l, lost)
  | some r => (l.bury ws r reason, lost ++ [(ws, r.tx, reason)])

/-- `declare_lost_by_pto`. -/
def declareLostByPto : TransmissionLedger × Option Transmission :=
  let (l1, lost) := l.declareLost ws .pto []
  (l1, lost.getLast?.map fun v => v.2.1)

/-- What `detect_losses_at` reads once, before its walk. -/
structure DetectParams where
  now : Instant
  timeThreshold : Duration
  largestIdx : ℕ
  largestAt : Option Instant
  reo : Duration
  quiet : Bool

/-- The count rule: which branch judges a departure `idx` lost, if any. -/
def packetBranch (p : DetectParams) (idx : ℕ) (at_ : Instant) : Option ReoBranch :=
  let inside := decide (p.reo ≠ 0) && p.largestAt.all fun la => decide (la - at_ < p.reo)
  if !inside then if idx + l.kPkt ≤ p.largestIdx then some .openWindow else none
  else if idx + max l.kPkt l.reoDepth ≤ p.largestIdx then some .depth
  else if idx + l.kPkt ≤ p.largestIdx ∧ p.quiet = true then some .quiet
  else none

/-- The counter of the branch that judged a packet verdict. -/
def countBranch (s : LedgerStats) : ReoBranch → LedgerStats
  | .depth => { s with reoJudgedDepth := s.reoJudgedDepth + 1 }
  | .quiet => { s with reoJudgedQuiet := s.reoJudgedQuiet + 1 }
  | .openWindow => s

/-- What the walk does with one entry of the departure order. -/
inductive Judgement
  /-- Resolved, or replaced by a record that has not departed. -/
  | dead
  /-- Not lost, and nothing behind it can be: the walk ends. -/
  | stop
  /-- Patient and not lost: stepped over. -/
  | patient
  | lost (reason : LossReason) (branch : Option ReoBranch)
  deriving DecidableEq

/-- The body of the walk of `detect_losses_at`, up to its effect. -/
def judge (p : DetectParams) (stepped : ℕ) (ws : WireSeq) : Judgement :=
  match l.records.get? ws with
  | none => .dead
  | some r =>
    match r.departed with
    | none => .dead
    | some at_ =>
      let idx := r.tx.depIdx.getD (2 ^ 64 - 1)
      let patient := l.isPatient r.tx at_
      if idx ≥ p.largestIdx then .stop
      else
        let threshold := if patient then p.timeThreshold * burstReorderFactor else p.timeThreshold
        match l.packetBranch p idx at_ with
        | some b => .lost .packet (some b)
        | none =>
          if at_ + threshold + p.reo ≤ p.now then .lost .time none
          else if patient = true ∧ stepped < patientScanLimit then .patient
          else .stop

/-- An entry is passed: popped at the front, kept behind it. -/
def pass (passed : List WireSeq) (ws : WireSeq) : List WireSeq :=
  if passed = [] then [] else passed ++ [ws]

/-- The walk of `detect_losses_at`: `passed` are the entries before the current one. -/
def detectWalk (p : DetectParams) :
    List WireSeq → List WireSeq → ℕ → TransmissionLedger → List LostTransmission →
      TransmissionLedger × List LostTransmission
  | passed, [], _, l, lost => ({ l with departedOrder := passed }, lost)
  | passed, ws :: rest, stepped, l, lost =>
    match l.judge p stepped ws with
    | .dead => detectWalk p (pass passed ws) rest stepped l lost
    | .stop => ({ l with departedOrder := passed ++ ws :: rest }, lost)
    | .patient => detectWalk p (passed ++ [ws]) rest (stepped + 1) l lost
    | .lost reason branch =>
      let l1 := { l with stats := branch.elim l.stats (countBranch l.stats) }
      let (l2, lost2) := l1.declareLost ws reason lost
      detectWalk p (pass passed ws) rest stepped l2 lost2

/-- A loss episode on a quiet path is one recovery; enough of them close the window. -/
def noteRecovery (now : Instant) (timeThreshold : Duration)
    (lost : List LostTransmission) : TransmissionLedger :=
  if l.reoWnd = 0 then l
  else
    let past := lost.any fun v => v.2.1.depIdx.any fun i => decide (i ≥ l.reoRecoveryPoint)
    let quiet :=
      l.lastSpuriousAck.all fun t => decide (now - t ≥ max reoQuietSpan (timeThreshold * 2))
    if past && quiet then
      let l1 := { l with reoRecoveries := l.reoRecoveries + 1, reoRecoveryPoint := l.nextDepIdx }
      if l1.reoRecoveries ≥ reoPersist then
        { l1 with reoWnd := 0, reoDepth := 0, reoRecoveries := 0, lastReoRaise := none }
      else l1
    else l

variable (timeThreshold : Duration)

/-- The threshold a pass was given is remembered, for the stall test of a late acknowledgement. -/
def noteThreshold : TransmissionLedger :=
  { l with lastTimeThreshold := some timeThreshold }

/-- The reordering window at use: it never exceeds half the time threshold. -/
def reoAt : Duration :=
  min l.reoWnd (timeThreshold / 2)

/-- What the walk of `detect_losses_at` compares against. -/
def detectParams (now : Instant) (timeThreshold : Duration) (largestIdx : ℕ) : DetectParams where
  now := now
  timeThreshold := timeThreshold
  largestIdx := largestIdx
  largestAt := l.largestAckedAt
  reo := l.reoAt timeThreshold
  quiet := l.largestAckedArrival.all fun a => decide (now - a ≥ l.reoAt timeThreshold)

/-- `detect_losses_at`. -/
def detectLossesAt (now : Instant) (timeThreshold : Duration) :
    TransmissionLedger × List LostTransmission :=
  let l0 := l.noteThreshold timeThreshold
  match l.largestAcked with
  | none => (l0, [])
  | some largestIdx =>
    let walked :=
      detectWalk (l0.detectParams now timeThreshold largestIdx) [] l0.departedOrder 0 l0 []
    ((walked.1.noteRecovery now timeThreshold walked.2).compactIfSparse, walked.2)

/-- The walk of `next_loss_time`: the trimmed departure order and the earliest deadline. -/
def nextLossWalk (l : TransmissionLedger) (timeThreshold reo : Duration) (largestIdx : ℕ) :
    List WireSeq → List WireSeq → ℕ → Option Instant → List WireSeq × Option Instant
  | passed, [], _, best => (passed, best)
  | passed, ws :: rest, stepped, best =>
    match (l.records.get? ws).bind fun r => r.departed.map fun at_ => (r, at_) with
    | none => l.nextLossWalk timeThreshold reo largestIdx (pass passed ws) rest stepped best
    | some (r, at_) =>
      let idx := r.tx.depIdx.getD (2 ^ 64 - 1)
      let patient := l.isPatient r.tx at_
      if idx ≥ largestIdx then (passed ++ ws :: rest, best)
      else
        let threshold := if patient then timeThreshold * burstReorderFactor else timeThreshold
        let due := at_ + threshold + reo
        let due :=
          if idx + l.kPkt ≤ largestIdx ∧ reo ≠ 0 then
            l.largestAckedArrival.elim due fun a => min due (a + reo)
          else due
        let best := some (best.elim due fun b => min b due)
        if patient = false ∨ stepped ≥ patientScanLimit then (passed ++ ws :: rest, best)
        else
          l.nextLossWalk timeThreshold reo largestIdx (passed ++ [ws]) rest (stepped + 1) best

/-- `next_loss_time`. -/
def nextLossTime : TransmissionLedger × Option Instant :=
  let l0 := l.noteThreshold timeThreshold
  match l.largestAcked with
  | none => (l0, none)
  | some largestIdx =>
    let walked :=
      l0.nextLossWalk timeThreshold (l0.reoAt timeThreshold) largestIdx [] l0.departedOrder 0 none
    ({ l0 with departedOrder := walked.1 }, walked.2)

/-! ### Reading the newest departures -/

/-- Drop the resolved entries at the back of the departure order. -/
def trimDeparted : TransmissionLedger :=
  { l with departedOrder := l.departedOrder.rdropWhile fun ws => !l.isDeparted ws }

/-- The walk of `scan_outstanding`, newest departure first. -/
def scanWalk (l : TransmissionLedger) (n maxScan : ℕ) :
    List WireSeq → ℕ → ℕ → ℕ → List (WireSeq × Transmission) → ℕ × List (WireSeq × Transmission)
  | [], cursor, _, _, out => (cursor, out)
  | ws :: rest, cursor, liveSeen, deadSeen, out =>
    if out.length ≥ n ∨ liveSeen ≥ maxScan ∨ deadSeen ≥ scanDeadBudget then (cursor, out)
    else
      match l.records.get? ws with
      | some r =>
        if r.departed.isSome then
          l.scanWalk n maxScan rest (cursor + 1) (liveSeen + 1) deadSeen (out ++ [(ws, r.tx)])
        else l.scanWalk n maxScan rest (cursor + 1) liveSeen (deadSeen + 1) out
      | none => l.scanWalk n maxScan rest (cursor + 1) liveSeen (deadSeen + 1) out

/-- `scan_outstanding`: up to `n` outstanding departures from the cursor on, and the new cursor. -/
def scanOutstanding (cursor n maxScan : ℕ) :
    TransmissionLedger × ℕ × List (WireSeq × Transmission) :=
  let l1 := if cursor = 0 then l.trimDeparted else l
  (l1, l1.scanWalk n maxScan (l1.departedOrder.reverse.drop cursor) cursor 0 0 [])

/-- `latest_outstanding_departure`. -/
def latestOutstandingDeparture : TransmissionLedger × Option Instant :=
  let l1 := l.trimDeparted
  (l1, l1.departedOrder.getLast?.bind fun ws => (l1.records.get? ws).bind (·.departed))

end TransmissionLedger

end Ghostframe.Transport
