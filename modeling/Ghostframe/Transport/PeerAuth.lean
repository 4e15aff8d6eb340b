import Ghostframe.Lib.Dict
import Ghostframe.Transport.Content

/-!
# Who may connect

`AccessPolicy.decide` is the access rule for tailnet peers. Around it:

* `DecisionCache`: decisions remembered per address, for the lifetime of their kind;
* `PeerGate`: the listener's admission state (the cache, the lookups in flight, and per
  address a floor below which an answer is stale);
* `SessionRechecker`: when each live session's peer is asked about again, and what to
  do with the answer.

An identity source either answers in place or is asked in the background; what it
answers in place is an argument. The denial log is left out: nothing reads it.
-/

namespace Ghostframe.Transport

open Dict Option

/-- The address of a peer. -/
inductive IpAddr
  | v4 (bits : UInt32)
  | v6 (bits : BitVec 128)
  deriving DecidableEq

/-- What the tailnet knows about a peer. -/
structure PeerIdentity where
  userId : ℤ
  loginName : String
  nodeName : String
  tags : List String
  deriving DecidableEq

/-- `is_tagged`. -/
def PeerIdentity.isTagged (p : PeerIdentity) : Bool := !p.tags.isEmpty

/-- Why a lookup produced no identity. -/
inductive WhoIsError
  | notFound
  | failed (message : String)
  deriving DecidableEq

/-- The outcome of asking who a peer is. -/
abbrev PeerLookup := Except WhoIsError PeerIdentity

def allowTtl : Duration := fromSecs 30
def denyTtl : Duration := fromSecs 5
def decisionCacheCapacity : ℕ := 4096
def maxLookupsInFlight : ℕ := 64
def recheckFloorKeep : Duration := fromSecs 30
def recheckRetryDelay : Duration := fromSecs 5
def peerLookupTimeout : Duration := fromSecs 3

/-! ### The access rule -/

/-- The user who owns this node. -/
structure Owner where
  userId : ℤ
  loginName : String
  deriving DecidableEq

/-- The resolved access policy. -/
structure AccessPolicy where
  owner : Option Owner
  logins : Finset String
  tags : Finset String
  deriving DecidableEq

inductive AllowReason
  | owner
  | listedUser
  | listedTag (tag : String)
  deriving DecidableEq

inductive DenyReason
  | unknownPeer
  | lookupFailed (message : String)
  | userNotAllowed
  | tagsNotAllowed
  | noIdentitySource
  deriving DecidableEq

inductive Decision
  | allow (reason : AllowReason)
  | deny (reason : DenyReason)
  deriving DecidableEq

namespace Decision

/-- `is_allowed`. -/
def isAllowed : Decision → Bool
  | allow _ => true
  | deny _ => false

/-- `ttl`: a failed lookup says nothing about the peer and is not remembered. -/
def ttl : Decision → Option Duration
  | allow _ => some allowTtl
  | deny (.lookupFailed _) => none
  | deny .noIdentitySource => none
  | deny _ => some denyTtl

end Decision

namespace AccessPolicy

/-- `from_parts`: entries that could only match a peer nothing is known about are dropped. -/
def fromParts (owner : Option Owner) (logins tags : List String) : AccessPolicy where
  owner := owner.filter fun o => decide (0 < o.userId)
  logins := (logins.filter fun l => !l.isEmpty).toFinset
  tags := (tags.filter fun t => decide ("tag:".length < t.length) && t.startsWith "tag:").toFinset

/-- `decide`: the access rule. -/
def decide (p : AccessPolicy) : PeerLookup → Decision
  | .error .notFound => .deny .unknownPeer
  | .error (.failed message) => .deny (.lookupFailed message)
  | .ok peer =>
    if peer.isTagged then
      match peer.tags.find? fun t => t ∈ p.tags with
      | some tag => .allow (.listedTag tag)
      | none => .deny .tagsNotAllowed
    else if p.owner.any fun o => 0 < peer.userId && o.userId == peer.userId then .allow .owner
    else if !peer.loginName.isEmpty && peer.loginName ∈ p.logins then .allow .listedUser
    else .deny .userNotAllowed

end AccessPolicy

/-! ### Remembered decisions -/

/-- Decisions remembered per address, each with its expiry. -/
structure DecisionCache where
  entries : Dict IpAddr (Decision × Instant) := .empty

namespace DecisionCache

variable (c : DecisionCache)

/-- The cache after an expired entry of `ip` was dropped. -/
def expire (ip : IpAddr) (now : Instant) : DecisionCache :=
  if (c.entries.get? ip).any fun e => e.2 ≤ now then ⟨c.entries.erase ip⟩ else c

/-- `get`: the decision for `ip`, if it has not expired. -/
def get (c : DecisionCache) (ip : IpAddr) (now : Instant) : DecisionCache × Option Decision :=
  (c.expire ip now, ((c.expire ip now).entries.get? ip).map Prod.fst)

/-- Make room for an address that has no entry. -/
def makeRoom (ip : IpAddr) (now : Instant) : DecisionCache :=
  if decide (decisionCacheCapacity ≤ c.entries.size) && !c.entries.contains ip then
    ⟨c.entries.retain fun _ e => now < e.2⟩
  else c

/-- `insert`: what cannot be remembered, or finds no room, replaces nothing. -/
def insert (c : DecisionCache) (ip : IpAddr) (decision : Decision) (now : Instant) :
    DecisionCache :=
  match decision.ttl with
  | none => c
  | some ttl =>
    let roomy := c.makeRoom ip now
    if decide (decisionCacheCapacity ≤ roomy.entries.size) && !c.entries.contains ip then roomy
    else ⟨roomy.entries.insert ip (decision, now + ttl)⟩

/-- `invalidate`. -/
def invalidate (ip : IpAddr) : DecisionCache := ⟨c.entries.erase ip⟩

theorem get?_expire (ip ip' : IpAddr) (now : Instant) :
    (c.expire ip now).entries.get? ip' =
      (c.entries.get? ip').filter fun e => ip' ≠ ip ∨ now < e.2 := by
  unfold expire
  by_cases hip : ip' = ip
  · subst hip
    rcases eq_none_or_eq_some (c.entries.get? ip') with he | ⟨e, he⟩
    · simp [he]
    · by_cases hexp : e.2 ≤ now
      · simp [he, hexp, Option.filter, not_lt.2 hexp]
      · simp [he, hexp, Option.filter, not_le.1 hexp]
  · have hkeep : (c.entries.get? ip').filter (fun e => decide (ip' ≠ ip ∨ now < e.2)) =
        c.entries.get? ip' := by
      cases c.entries.get? ip' <;> simp [hip]
    rw [hkeep]
    split_ifs
    · exact get?_erase_ne _ hip
    · rfl

theorem get?_makeRoom {c : DecisionCache} {ip ip' : IpAddr} {now : Instant}
    {e : Decision × Instant} (h : (c.makeRoom ip now).entries.get? ip' = some e) :
    c.entries.get? ip' = some e := by
  unfold makeRoom at h
  split_ifs at h
  · exact ((get?_retain_eq_some _ _ _ _).1 h).1
  · exact h

/-- An entry of the cache after `insert` is an older one, or the one inserted. -/
theorem get?_insert {c : DecisionCache} {ip ip' : IpAddr} {decision : Decision} {now : Instant}
    {e : Decision × Instant} (h : (c.insert ip decision now).entries.get? ip' = some e) :
    (c.entries.get? ip' = some e ∧ (ip' = ip → decision.ttl = none)) ∨
      (ip' = ip ∧ ∃ ttl, decision.ttl = some ttl ∧ e = (decision, now + ttl)) := by
  unfold insert at h
  cases httl : decision.ttl with
  | none =>
    rw [httl] at h
    exact .inl ⟨h, fun _ => rfl⟩
  | some ttl =>
    rw [httl] at h
    dsimp only at h
    split_ifs at h with hfull
    · -- there was no room, so the address had no entry
      refine .inl ⟨get?_makeRoom h, ?_⟩
      rintro rfl
      have hno : c.entries.contains ip' = false := by simpa using (Bool.and_eq_true_iff.1 hfull).2
      rw [contains, get?_makeRoom h] at hno
      cases hno
    · rw [Dict.get?_insert] at h
      split_ifs at h with hip
      · exact .inr ⟨hip, ttl, rfl, (some.inj h).symm⟩
      · exact .inl ⟨get?_makeRoom h, fun heq => absurd heq hip⟩

end DecisionCache

/-! ### The listener's gate -/

/-- How the peers' identities are learnt. -/
inductive Source
  | absent
  | immediate
  | background
  deriving DecidableEq

/-- What the gate says about a new connection. -/
inductive GateCheck
  | allow
  | deny
  | pending
  | busy
  deriving DecidableEq

/-- What asking again about a live session's peer found. -/
inductive Recheck
  | allowed
  | revoked
  | lookupFailed
  | pending
  deriving DecidableEq

/-- `from_decision`. -/
def Recheck.fromDecision : Decision → Recheck
  | .allow _ => .allowed
  | .deny (.lookupFailed _) => .lookupFailed
  | .deny _ => .revoked

/-- The admission state of the listener. `clock` counts lookup starts and re-checks, and a
re-check's floor makes the answers of the lookups started before it stale. -/
structure PeerGate where
  policy : AccessPolicy
  source : Source
  cache : DecisionCache := {}
  inFlight : Finset IpAddr := ∅
  requested : List IpAddr := []
  clock : ℕ := 0
  recheckFloor : Dict IpAddr (ℕ × Instant) := .empty

namespace PeerGate

variable (g : PeerGate) (ip : IpAddr)

/-- `resolve_decision`: apply a finished lookup. -/
def resolveDecision (lookup : PeerLookup) (now : Instant) : PeerGate × Decision :=
  let decision := g.policy.decide lookup
  ({ g with inFlight := g.inFlight.erase ip, cache := g.cache.insert ip decision now }, decision)

variable (now : Instant)

/-- `check`: decide about a new connection. `found` is what an immediate source answers. -/
def check (canHold : Bool) (found : PeerLookup) :
    PeerGate × GateCheck :=
  let (cache, cached) := g.cache.get ip now
  let g := { g with cache }
  match cached with
  | some (.allow _) => (g, .allow)
  | some (.deny _) => (g, .deny)
  | none =>
    match g.source with
    | .absent => (g, .deny)
    | .immediate =>
      let (g, decision) := g.resolveDecision ip found now
      (g, if decision.isAllowed then .allow else .deny)
    | .background =>
      if !canHold then (g, .busy)
      else if ip ∈ g.inFlight then (g, .pending)
      else if maxLookupsInFlight ≤ g.inFlight.card then (g, .busy)
      else
        ({ g with inFlight := insert ip g.inFlight, requested := g.requested ++ [ip] }, .pending)

/-- The gate once an expired entry of `ip` was dropped. -/
def expire (g : PeerGate) (ip : IpAddr) (now : Instant) : PeerGate :=
  { g with cache := g.cache.expire ip now }

/-- A check is answered from the cache, in place, or by what the lookups in flight allow. -/
theorem check_cases (canHold : Bool) (found : PeerLookup) :
    (∃ e, (g.expire ip now).cache.entries.get? ip = some e ∧
        g.check ip now canHold found =
          (g.expire ip now, if e.1.isAllowed then .allow else .deny)) ∨
      ((g.expire ip now).cache.entries.get? ip = none ∧
        ((g.source = .immediate ∧ g.check ip now canHold found =
            (((g.expire ip now).resolveDecision ip found now).1,
              if (g.policy.decide found).isAllowed then .allow else .deny)) ∨
          (g.source ≠ .immediate ∧ (g.check ip now canHold found).1 = g.expire ip now ∧
            (g.check ip now canHold found).2 ≠ .allow) ∨
          (g.source = .background ∧ ip ∉ g.inFlight ∧ g.check ip now canHold found =
            ({ g.expire ip now with
                inFlight := insert ip g.inFlight, requested := g.requested ++ [ip] },
              .pending)))) := by
  unfold check DecisionCache.get
  rcases eq_none_or_eq_some ((g.cache.expire ip now).entries.get? ip) with hnone | ⟨e, he⟩
  · refine .inr ⟨hnone, ?_⟩
    simp only [hnone, map_none]
    rcases g with ⟨policy, source, cache, inFlight, requested, clock, floor⟩
    cases source with
    | absent => exact .inr (.inl ⟨by simp, rfl, by rintro ⟨⟩⟩)
    | immediate => exact .inl ⟨rfl, rfl⟩
    | background =>
      by_cases hhold : (!canHold) = true
      · exact .inr (.inl ⟨by simp, by rw [if_pos hhold]; rfl, by rw [if_pos hhold]; rintro ⟨⟩⟩)
      by_cases hflight : ip ∈ inFlight
      · exact .inr (.inl ⟨by simp, by rw [if_neg hhold, if_pos hflight]; rfl,
          by rw [if_neg hhold, if_pos hflight]; rintro ⟨⟩⟩)
      by_cases hfull : maxLookupsInFlight ≤ inFlight.card
      · exact .inr (.inl ⟨by simp, by rw [if_neg hhold, if_neg hflight, if_pos hfull]; rfl,
          by rw [if_neg hhold, if_neg hflight, if_pos hfull]; rintro ⟨⟩⟩)
      · exact .inr (.inr ⟨rfl, hflight, by rw [if_neg hhold, if_neg hflight, if_neg hfull]; rfl⟩)
  · refine .inl ⟨e, he, ?_⟩
    simp only [he, map_some]
    cases e.1 <;> rfl

/-- The stamps `clock + 1, clock + 2, …` for a list of addresses. -/
def stamped (clock : ℕ) (ips : List IpAddr) : List (IpAddr × ℕ) :=
  ips.zipIdx (clock + 1)

/-- `take_stamped_requests`: the lookups to start. -/
def takeStampedRequests : PeerGate × List (IpAddr × ℕ) :=
  ({ g with requested := [], clock := g.clock + g.requested.length }, stamped g.clock g.requested)

/-- `is_stale`: did the lookup begin before the latest re-check of its address? -/
def isStale (stamp : ℕ) : Bool :=
  (g.recheckFloor.get? ip).any fun f => stamp ≤ f.1

theorem isStale_iff {g : PeerGate} {ip : IpAddr} {stamp : ℕ} :
    g.isStale ip stamp = true ↔ ∃ f, g.recheckFloor.get? ip = some f ∧ stamp ≤ f.1 := by
  unfold isStale
  cases g.recheckFloor.get? ip <;> simp

/-- The floors after a re-check of `ip`. -/
def raiseFloor : PeerGate :=
  { g with
    clock := g.clock + 1
    recheckFloor :=
      (g.recheckFloor.retain fun _ f => now - f.2 < recheckFloorKeep).insert ip (g.clock + 1, now) }

/-- A lookup of `ip` is queued, unless one is waiting to be started. -/
def request : PeerGate :=
  if ip ∈ g.requested then g
  else { g with inFlight := insert ip g.inFlight, requested := g.requested ++ [ip] }

/-- `recheck`: ask again about an admitted peer, past the cache. -/
def recheck (found : PeerLookup) : PeerGate × Recheck :=
  let g := { g with cache := g.cache.invalidate ip }
  match g.source with
  | .absent => (g, .revoked)
  | .immediate =>
    let (g, decision) := g.resolveDecision ip found now
    (g, .fromDecision decision)
  | .background => ((g.raiseFloor ip now).request ip, .pending)

/-- The gate once the decision about `ip` is forgotten. -/
def invalidate (g : PeerGate) (ip : IpAddr) : PeerGate :=
  { g with cache := g.cache.invalidate ip }

/-- A re-check forgets the decision, and then asks in place or queues a lookup. -/
theorem recheck_cases (found : PeerLookup) :
    (g.source = .absent ∧ g.recheck ip now found = (g.invalidate ip, .revoked)) ∨
      (g.source = .immediate ∧ g.recheck ip now found =
        (((g.invalidate ip).resolveDecision ip found now).1,
          .fromDecision (g.policy.decide found))) ∨
      (g.source = .background ∧ g.recheck ip now found =
        (((g.invalidate ip).raiseFloor ip now).request ip, .pending)) := by
  rcases g with ⟨policy, source, cache, inFlight, requested, clock, floor⟩
  cases source with
  | absent => exact .inl ⟨rfl, rfl⟩
  | immediate => exact .inr (.inl ⟨rfl, rfl⟩)
  | background => exact .inr (.inr ⟨rfl, rfl⟩)

end PeerGate

/-! ### Re-checks of live sessions -/

/-- When a session's peer is asked about next, and whether the last lookup failed. -/
structure RecheckEntry where
  ip : IpAddr
  nextAt : Instant
  failedOnce : Bool
  deriving DecidableEq

/-- The re-check schedule of the live sessions. -/
structure SessionRechecker (K : Type*) where
  interval : Duration
  entries : Dict K RecheckEntry := .empty

namespace SessionRechecker

variable {K : Type*} [DecidableEq K] (r : SessionRechecker K)

/-- `track`: a key already tracked for the same address keeps its schedule. -/
def track (k : K) (ip : IpAddr) (now : Instant) : SessionRechecker K :=
  if (r.entries.get? k).any fun e => e.ip = ip then r
  else { r with entries := r.entries.insert k ⟨ip, now + r.interval, false⟩ }

/-- `sync`: make the tracked set equal `live`. -/
def sync (live : Dict K IpAddr) (now : Instant) : SessionRechecker K :=
  live.toList.foldl (fun r s => r.track s.1 s.2 now)
    { r with entries := r.entries.retain fun k _ => live.contains k }

/-- `forget`. -/
def forget (k : K) : SessionRechecker K :=
  { r with entries := r.entries.erase k }

/-- `next_due`: the earliest moment anything is due. -/
def nextDue : Option Instant :=
  (r.entries.toList.map fun e => e.2.nextAt).min?

/-- `apply_outcome`: what an answer does to one session; `true` when it must be closed. -/
def applyOutcome (k : K) (outcome : Recheck) (now : Instant) : SessionRechecker K × Bool :=
  match r.entries.get? k with
  | none => (r, false)
  | some e =>
    match outcome with
    | .allowed =>
      ({ r with entries := r.entries.insert k ⟨e.ip, now + r.interval, false⟩ }, false)
    | .lookupFailed =>
      if !e.failedOnce then
        ({ r with entries := r.entries.insert k ⟨e.ip, now + recheckRetryDelay, true⟩ }, false)
      else ({ r with entries := r.entries.erase k }, true)
    | .revoked => ({ r with entries := r.entries.erase k }, true)
    | .pending => (r, false)

/-- `apply`: a finished lookup of `ip` answers every tracked session at that address. -/
def apply (ip : IpAddr) (decision : Decision) (now : Instant) : SessionRechecker K × List K :=
  let keys := (r.entries.toList.filter fun e => e.2.ip = ip).map Prod.fst
  keys.foldl
    (fun acc k =>
      let (r, closes) := acc.1.applyOutcome k (.fromDecision decision) now
      (r, if closes then acc.2 ++ [k] else acc.2))
    (r, [])

/-- `set_next`. -/
def setNext (k : K) (nextAt : Instant) : SessionRechecker K :=
  { r with entries := r.entries.modify k fun e => { e with nextAt } }

/-- `run_due`, for one due session. -/
def runDueOne (found : IpAddr → PeerLookup) (now : Instant)
    (acc : SessionRechecker K × PeerGate × List K) (k : K) :
    SessionRechecker K × PeerGate × List K :=
  match acc.1.entries.get? k with
  | none => acc
  | some e =>
    let (gate, outcome) := acc.2.1.recheck e.ip now (found e.ip)
    match outcome with
    | .pending => (acc.1.setNext k (now + acc.1.interval), gate, acc.2.2)
    | outcome =>
      let (r, closes) := acc.1.applyOutcome k outcome now
      (r, gate, if closes then acc.2.2 ++ [k] else acc.2.2)

/-- The sessions that are due. -/
def dueKeys (now : Instant) : List K :=
  (r.entries.toList.filter fun e => e.2.nextAt ≤ now).map Prod.fst

/-- `run_due`: re-check every session that is due; the list holds the sessions to close. -/
def runDue (gate : PeerGate) (found : IpAddr → PeerLookup)
    (now : Instant) : SessionRechecker K × PeerGate × List K :=
  (r.dueKeys now).foldl (runDueOne found now) (r, gate, [])

/-- The addresses of the sessions that are due. -/
def dueIps (now : Instant) : List IpAddr :=
  (r.entries.toList.filter fun e => e.2.nextAt ≤ now).map fun e => e.2.ip

/-! ### What the schedule's operations do -/

/-- What an answer makes of a tracked session: its new entry, or nothing when it is closed. -/
def after (interval : Duration) (outcome : Recheck) (now : Instant) (e : RecheckEntry) :
    Option RecheckEntry :=
  match outcome with
  | .allowed => some ⟨e.ip, now + interval, false⟩
  | .lookupFailed => if !e.failedOnce then some ⟨e.ip, now + recheckRetryDelay, true⟩ else none
  | .revoked => none
  | .pending => some e

theorem applyOutcome_spec (k : K) (outcome : Recheck) (now : Instant) :
    (r.applyOutcome k outcome now).1.interval = r.interval ∧
      (∀ k', (r.applyOutcome k outcome now).1.entries.get? k' =
        if k' = k then (r.entries.get? k).bind (after r.interval outcome now)
        else r.entries.get? k') ∧
      (r.applyOutcome k outcome now).2 =
        (r.entries.get? k).any fun e => (after r.interval outcome now e).isNone := by
  unfold applyOutcome
  rcases eq_none_or_eq_some (r.entries.get? k) with hnone | ⟨e, he⟩
  · simp only [hnone]
    refine ⟨trivial, fun k' => ?_, rfl⟩
    split_ifs with hk
    · rw [hk, hnone]; rfl
    · rfl
  · simp only [he, bind_some, any_some]
    cases outcome with
    | allowed => exact ⟨rfl, fun k' => get?_insert _ _ _ _, rfl⟩
    | revoked => exact ⟨rfl, fun k' => get?_erase _ _ _, rfl⟩
    | pending =>
      refine ⟨rfl, fun k' => ?_, rfl⟩
      by_cases hk : k' = k
      · subst hk
        simpa [after] using he
      · rw [if_neg hk]
    | lookupFailed =>
      cases hfailed : e.failedOnce with
      | false => simp [after, hfailed, get?_insert]
      | true => simp [after, hfailed, get?_erase]

/-- The answer applied to a list of sessions. -/
theorem foldl_applyOutcome (outcome : Recheck) (now : Instant) {keys : List K} (hkeys : keys.Nodup)
    (r : SessionRechecker K) (closing : List K) :
    let res := keys.foldl
      (fun acc k =>
        let (r, closes) := acc.1.applyOutcome k outcome now
        (r, if closes then acc.2 ++ [k] else acc.2))
      (r, closing)
    res.1.interval = r.interval ∧
      (∀ k, res.1.entries.get? k =
        if k ∈ keys then (r.entries.get? k).bind (after r.interval outcome now)
        else r.entries.get? k) ∧
      ∀ k, k ∈ res.2 ↔ k ∈ closing ∨
        k ∈ keys ∧ ∃ e, r.entries.get? k = some e ∧ after r.interval outcome now e = none := by
  induction keys generalizing r closing with
  | nil => simp
  | cons k keys ih =>
    obtain ⟨hinterval, hget, hcloses⟩ := r.applyOutcome_spec k outcome now
    obtain ⟨hk, hrest⟩ := List.nodup_cons.1 hkeys
    have hlater := ih hrest (r.applyOutcome k outcome now).1
      (if (r.applyOutcome k outcome now).2 then closing ++ [k] else closing)
    simp only [List.foldl_cons, hinterval] at hlater ⊢
    refine ⟨hlater.1, fun k' => ?_, fun k' => ?_⟩
    · rw [hlater.2.1, hget]
      by_cases hk' : k' = k
      · simp [hk', hk]
      · simp [hk']
    · rw [hlater.2.2, hget, hcloses]
      by_cases hk' : k' = k
      · subst hk'
        rcases eq_none_or_eq_some (r.entries.get? k') with hnone | ⟨e, he⟩
        · simp [hnone, hk]
        · cases hafter : after r.interval outcome now e <;> simp [he, hafter, hk]
      · split_ifs <;> simp [hk']

/-- A finished lookup changes the sessions at its address, and closes those left without entry. -/
theorem apply_spec (ip : IpAddr) (decision : Decision) (now : Instant) :
    (r.apply ip decision now).1.interval = r.interval ∧
      (∀ k, (r.apply ip decision now).1.entries.get? k = (r.entries.get? k).bind fun e =>
        if e.ip = ip then after r.interval (.fromDecision decision) now e else some e) ∧
      ∀ k, k ∈ (r.apply ip decision now).2 ↔ ∃ e, r.entries.get? k = some e ∧ e.ip = ip ∧
        after r.interval (.fromDecision decision) now e = none := by
  have hmem : ∀ k, k ∈ (r.entries.toList.filter fun e => e.2.ip = ip).map Prod.fst ↔
      ∃ e, r.entries.get? k = some e ∧ e.ip = ip := by
    intro k
    simp [mem_toList_iff]
  obtain ⟨hinterval, hget, hclosing⟩ := foldl_applyOutcome (.fromDecision decision) now
    (r.entries.nodup_filter_toList fun e => e.2.ip = ip) r []
  refine ⟨hinterval, fun k => (hget k).trans ?_, fun k => (hclosing k).trans ?_⟩
  · simp only [hmem]
    rcases eq_none_or_eq_some (r.entries.get? k) with hnone | ⟨e, he⟩
    · simp [hnone]
    · by_cases hip : e.ip = ip <;> simp [he, hip]
  · rw [hmem]
    constructor
    · rintro (h | ⟨⟨e, he, hip⟩, e', he', hafter⟩)
      · cases h
      · obtain rfl := some.inj (he.symm.trans he')
        exact ⟨e, he, hip, hafter⟩
    · rintro ⟨e, he, hip, hafter⟩
      exact .inr ⟨⟨e, he, hip⟩, e, he, hafter⟩

theorem mem_dueKeys {r : SessionRechecker K} {now : Instant} {k : K} :
    k ∈ r.dueKeys now ↔ ∃ e, r.entries.get? k = some e ∧ e.nextAt ≤ now := by
  simp [dueKeys, mem_toList_iff]

theorem mem_dueIps {r : SessionRechecker K} {now : Instant} {ip : IpAddr} :
    ip ∈ r.dueIps now ↔ ∃ k e, r.entries.get? k = some e ∧ e.nextAt ≤ now ∧ e.ip = ip := by
  simp [dueIps, mem_toList_iff, and_assoc]

/-- Nothing is due before the earliest due time. -/
theorem le_nextDue_iff {r : SessionRechecker K} {now : Instant} :
    (∀ due ∈ r.nextDue, now ≤ due) ↔ ∀ k e, r.entries.get? k = some e → now ≤ e.nextAt := by
  have hmem : ∀ b, b ∈ (r.entries.toList.map fun e => e.2.nextAt) ↔
      ∃ k e, r.entries.get? k = some e ∧ e.nextAt = b := by
    intro b
    simp [mem_toList_iff]
  unfold nextDue
  constructor
  · intro h k e he
    have hin := (hmem e.nextAt).2 ⟨k, e, he, rfl⟩
    obtain ⟨m, hm⟩ := List.isSome_min?_of_mem hin |> isSome_iff_exists.1
    exact (List.le_min?_iff hm).1 (h m hm) _ hin
  · intro h m hm
    refine (List.le_min?_iff hm).2 fun b hb => ?_
    obtain ⟨k, e, he, rfl⟩ := (hmem b).1 hb
    exact h k e he

end SessionRechecker

end Ghostframe.Transport
