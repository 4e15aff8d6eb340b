import Ghostframe.Lib.Run
import Ghostframe.Transport.PeerAuth

/-!
# Admissions are justified

A gate is asked about new connections and about live sessions, its lookups are started
and answered in any order, and a history records the re-checks, the starts and the
answers that were applied.

* `Quiet`: an outstanding lookup whose answer cannot be applied any more: it is stale,
  or its time is over;
* `PeerRun.Sound`: an address has at most one lookup that is not quiet, none while a
  decision is remembered for it, and a remembered admission is justified;
* `admissions_justified`: so is every admission of every run.
-/

namespace Ghostframe.Transport

open DecisionCache Dict List Option PeerGate

/-! ### Histories -/

section Since

variable {α : Type*}

/-- Something in the history, newest first, satisfied `p`, and nothing after it `q`. -/
def Since (p q : α → Prop) : List α → Prop
  | [] => False
  | e :: h => p e ∨ (¬q e ∧ Since p q h)

theorem Since.cons {p q : α → Prop} {e : α} {h : List α} (hs : Since p q h) (hq : ¬q e) :
    Since p q (e :: h) :=
  .inr ⟨hq, hs⟩

theorem Since.now {p : α → Prop} (q : α → Prop) {e : α} (h : List α) (hp : p e) :
    Since p q (e :: h) :=
  .inl hp

end Since

/-- What the history of a gate records. -/
inductive GateEvent
  | recheck (ip : IpAddr)
  | began (ip : IpAddr) (id : ℕ)
  | answered (ip : IpAddr) (id : ℕ) (found : PeerLookup) (time : Instant)

/-- An answer for `ip` that the policy refuses. -/
def Refuses (policy : AccessPolicy) (ip : IpAddr) : GateEvent → Prop
  | .answered ip' _ found _ => ip' = ip ∧ (policy.decide found).isAllowed = false
  | _ => False

/-- A lookup of `ip` was allowed and answered at `time`; it had begun after the latest re-check of
the address, and no refusing answer was applied after it. -/
def AllowedAt (policy : AccessPolicy) (h : List GateEvent) (ip : IpAddr) (time : Instant) : Prop :=
  ∃ id found, (policy.decide found).isAllowed = true ∧
    Since (· = .answered ip id found time) (Refuses policy ip) h ∧
    Since (· = .began ip id) (· = .recheck ip) h

/-- An admission of `ip` at `now` is justified by a lookup answered within the allow lifetime. -/
def Justified (policy : AccessPolicy) (h : List GateEvent) (ip : IpAddr) (now : Instant) : Prop :=
  ∃ time, time ≤ now ∧ now ≤ time + allowTtl ∧ AllowedAt policy h ip time

theorem AllowedAt.began {policy : AccessPolicy} {h : List GateEvent} {ip : IpAddr} {time : Instant}
    (ha : AllowedAt policy h ip time) (ip' : IpAddr) (id : ℕ) :
    AllowedAt policy (.began ip' id :: h) ip time := by
  obtain ⟨n, found, hallow, hanswer, hbegan⟩ := ha
  exact ⟨n, found, hallow, hanswer.cons not_false, hbegan.cons nofun⟩

/-! ### Runs of a gate -/

/-- A lookup that was started and not answered yet. -/
structure PeerQuery where
  id : ℕ
  ip : IpAddr
  stamp : ℕ
  begun : Instant
  deriving DecidableEq

/-- A gate, its outstanding lookups, and what happened so far, newest first. -/
structure PeerRun where
  gate : PeerGate
  now : Instant := 0
  queries : List PeerQuery := []
  history : List GateEvent := []
  asked : ℕ := 0

/-- What happens at the gate. -/
inductive PeerOp
  | check (ip : IpAddr) (now : Instant) (canHold : Bool) (found : PeerLookup)
  | recheck (ip : IpAddr) (now : Instant) (found : PeerLookup)
  | take (now : Instant)
  | answer (id : ℕ) (now : Instant) (found : PeerLookup)

/-- When an operation happens. -/
def PeerOp.time : PeerOp → Instant
  | check _ now _ _ => now
  | recheck _ now _ => now
  | take now => now
  | answer _ now _ => now

namespace PeerRun

variable (r : PeerRun)

/-- A lookup that is asked and answered in place is recorded. -/
def inPlace (ip : IpAddr) (found : PeerLookup) (now : Instant) : PeerRun :=
  { r with
    history := .answered ip r.asked found now :: .began ip r.asked :: r.history
    asked := r.asked + 1 }

/-- Does a check of `ip` ask the source in place? -/
def asksInPlace (ip : IpAddr) (now : Instant) : Bool :=
  decide (r.gate.source = .immediate) && (r.gate.cache.get ip now).2.isNone

/-- One lookup is started. -/
def begin (now : Instant) (q : IpAddr × ℕ) : PeerRun :=
  { r with
    queries := ⟨r.asked, q.1, q.2, now⟩ :: r.queries
    history := .began q.1 r.asked :: r.history
    asked := r.asked + 1 }

/-- A finished lookup is applied. -/
def settle (q : PeerQuery) (found : PeerLookup) (now : Instant) : PeerRun :=
  { r with
    gate := (r.gate.resolveDecision q.ip found now).1
    history := .answered q.ip q.id found now :: r.history }

/-- The outstanding lookup numbered `id`. -/
def query (id : ℕ) : Option PeerQuery := r.queries.find? fun q => q.id = id

/-- `apply_peer_lookup`, as far as the gate goes: a stale answer is dropped unseen. -/
def answer (q : PeerQuery) (found : PeerLookup) (now : Instant) : PeerRun :=
  let r := { r with now, queries := r.queries.erase q }
  if r.gate.isStale q.ip q.stamp then r else r.settle q found now

/-- One operation. -/
def step : PeerOp → PeerRun
  | .check ip now canHold found =>
    let told := if r.asksInPlace ip now then r.inPlace ip found now else r
    { told with now, gate := (r.gate.check ip now canHold found).1 }
  | .recheck ip now found =>
    let told := { r with history := .recheck ip :: r.history }
    let told := if r.gate.source = .immediate then told.inPlace ip found now else told
    { told with now, gate := (r.gate.recheck ip now found).1 }
  | .take now =>
    (r.gate.takeStampedRequests.2).foldl (begin · now)
      { r with now, gate := r.gate.takeStampedRequests.1 }
  | .answer id now found =>
    match r.query id with
    | none => { r with now }
    | some q => r.answer q found now

/-- The address an operation admits connections of: a check that answers `Allow`, or an allowed
answer, which admits the connections held for its address. -/
def admits : PeerOp → Option IpAddr
  | .check ip now canHold found =>
    if (r.gate.check ip now canHold found).2 = .allow then some ip else none
  | .answer id _ found =>
    (r.query id).bind fun q =>
      if !r.gate.isStale q.ip q.stamp && (r.gate.policy.decide found).isAllowed then some q.ip
      else none
  | _ => none

/-- Time does not run backwards, and a lookup is answered before its timeout. -/
def Timely (op : PeerOp) : Prop :=
  r.now ≤ op.time ∧
    match op with
    | .answer id now _ => ∀ q ∈ r.query id, now ≤ q.begun + peerLookupTimeout
    | _ => True

/-- The gate starts with nothing remembered and nothing asked. -/
def start (policy : AccessPolicy) (source : Source) : PeerRun :=
  ⟨⟨policy, source, {}, ∅, [], 0, .empty⟩, 0, [], [], 0⟩

/-! ### At most one answer is awaited -/

/-- The answer of the lookup cannot be applied any more. -/
def Quiet (q : PeerQuery) : Prop :=
  r.gate.isStale q.ip q.stamp = true ∨ q.begun + peerLookupTimeout < r.now

/-- What the gate, the outstanding lookups and the history of a run agree on. -/
structure Sound (r : PeerRun) : Prop where
  stamped : ∀ q ∈ r.queries, q.stamp ≤ r.gate.clock ∧ q.begun ≤ r.now
  floors : ∀ ip f, r.gate.recheckFloor.get? ip = some f → f.1 ≤ r.gate.clock ∧ f.2 ≤ r.now
  floorAfter : ∀ q ∈ r.queries, ∀ f, r.gate.recheckFloor.get? q.ip = some f →
    q.stamp ≤ f.1 → q.begun ≤ f.2
  nodup : r.gate.requested.Nodup
  single : r.queries.Pairwise fun q q' => q.ip = q'.ip → r.Quiet q ∨ r.Quiet q'
  waiting : ∀ q ∈ r.queries, q.ip ∈ r.gate.requested → r.Quiet q
  requested : ∀ ip ∈ r.gate.requested, ip ∈ r.gate.inFlight
  inFlight : ∀ q ∈ r.queries, r.Quiet q ∨ q.ip ∈ r.gate.inFlight
  cached : ∀ ip e, r.gate.cache.entries.get? ip = some e → r.now < e.2 →
    ip ∉ r.gate.requested ∧ ∀ q ∈ r.queries, q.ip = ip → r.Quiet q
  begun : ∀ q ∈ r.queries,
    r.Quiet q ∨ Since (· = .began q.ip q.id) (· = .recheck q.ip) r.history
  allowed : ∀ ip reason expiry, r.gate.cache.entries.get? ip = some (.allow reason, expiry) →
    r.now < expiry → ∃ time ≤ r.now,
      expiry = time + allowTtl ∧ AllowedAt r.gate.policy r.history ip time
  inPlaceOnly : r.gate.source ≠ .background → r.gate.requested = [] ∧ r.queries = []

theorem sound_start (policy : AccessPolicy) (source : Source) : (start policy source).Sound where
  stamped := nofun
  floors := nofun
  floorAfter := nofun
  nodup := .nil
  single := .nil
  waiting := nofun
  requested := nofun
  inFlight := nofun
  cached := nofun
  begun := nofun
  allowed := nofun
  inPlaceOnly := fun _ => ⟨rfl, rfl⟩

variable {r : PeerRun} {q : PeerQuery} {ip : IpAddr} {now : Instant}

theorem Quiet.mono {r' : PeerRun} (h : r.Quiet q) (hnow : r.now ≤ r'.now)
    (hfloor : r.gate.isStale q.ip q.stamp = true → r'.gate.isStale q.ip q.stamp = true) :
    r'.Quiet q := by
  rcases h with h | h
  · exact .inl (hfloor h)
  · exact .inr (h.trans_le hnow)

/-- Time passes. -/
theorem Sound.advance (h : r.Sound) (hnow : r.now ≤ now) :
    { r with now }.Sound where
  stamped := fun q hq => ⟨(h.stamped q hq).1, (h.stamped q hq).2.trans hnow⟩
  floors := fun ip f hf => ⟨(h.floors ip f hf).1, (h.floors ip f hf).2.trans hnow⟩
  floorAfter := h.floorAfter
  nodup := h.nodup
  single := h.single.imp fun hq hip => (hq hip).imp (·.mono hnow id) (·.mono hnow id)
  waiting := fun q hq hw => (h.waiting q hq hw).mono hnow id
  requested := h.requested
  inFlight := fun q hq => (h.inFlight q hq).imp_left (·.mono hnow id)
  cached := by
    intro ip e he hlive
    obtain ⟨hreq, hquiet⟩ := h.cached ip e he (hnow.trans_lt hlive)
    exact ⟨hreq, fun q hq hip => (hquiet q hq hip).mono hnow id⟩
  begun := fun q hq => (h.begun q hq).imp_left (·.mono hnow id)
  allowed := by
    intro ip reason expiry he hlive
    obtain ⟨time, htime, hexp, hallowed⟩ := h.allowed ip reason expiry he (hnow.trans_lt hlive)
    exact ⟨time, htime.trans hnow, hexp, hallowed⟩
  inPlaceOnly := h.inPlaceOnly

theorem Sound.shrink (h : r.Sound) {cache : DecisionCache}
    (hsub : ∀ ip e, cache.entries.get? ip = some e → r.gate.cache.entries.get? ip = some e) :
    { r with gate := { r.gate with cache } }.Sound :=
  { h with
    cached := fun ip e he => h.cached ip e (hsub ip e he)
    allowed := fun ip reason expiry he => h.allowed ip reason expiry (hsub ip _ he) }

/-- Outstanding lookups leave. -/
theorem Sound.answered (h : r.Sound) {queries : List PeerQuery} (hsub : queries.Sublist r.queries) :
    { r with queries }.Sound :=
  { h with
    stamped := fun q hq => h.stamped q (hsub.subset hq)
    floorAfter := fun q hq => h.floorAfter q (hsub.subset hq)
    single := h.single.sublist hsub
    waiting := fun q hq => h.waiting q (hsub.subset hq)
    inFlight := fun q hq => h.inFlight q (hsub.subset hq)
    cached := fun ip e he hlive =>
      ⟨(h.cached ip e he hlive).1, fun q hq => (h.cached ip e he hlive).2 q (hsub.subset hq)⟩
    begun := fun q hq => h.begun q (hsub.subset hq)
    inPlaceOnly := fun hs => ⟨(h.inPlaceOnly hs).1, sublist_nil.1 ((h.inPlaceOnly hs).2 ▸ hsub)⟩ }

/-- A lookup of `ip` is answered and applied, when nothing else is awaited for the address and no
decision is remembered. -/
theorem Sound.resolve (h : r.Sound) {id : ℕ} (found : PeerLookup) (hreq : ip ∉ r.gate.requested)
    (hquiet : ∀ q ∈ r.queries, q.ip = ip → r.Quiet q)
    (hcache : ∀ e, r.gate.cache.entries.get? ip = some e → e.2 ≤ r.now)
    (hbegan : Since (· = .began ip id) (· = .recheck ip) r.history) :
    { r with
      gate := (r.gate.resolveDecision ip found r.now).1
      history := .answered ip id found r.now :: r.history }.Sound :=
  { h with
    requested := by
      intro ip' hmem
      refine Finset.mem_erase.2 ⟨?_, h.requested ip' hmem⟩
      rintro rfl
      exact hreq hmem
    inFlight := by
      intro q hq
      by_cases hip : q.ip = ip
      · exact .inl (hquiet q hq hip)
      · exact (h.inFlight q hq).imp_right fun hmem => Finset.mem_erase.2 ⟨hip, hmem⟩
    cached := by
      intro ip' e he hlive
      rcases get?_insert he with ⟨hold, -⟩ | ⟨rfl, -⟩
      · exact h.cached ip' e hold hlive
      · exact ⟨hreq, hquiet⟩
    begun := fun q hq => (h.begun q hq).imp_right fun hs => hs.cons nofun
    allowed := by
      intro ip' reason expiry he hlive
      rcases get?_insert he with ⟨hold, hsame⟩ | ⟨rfl, ttl, httl, heq⟩
      · have hip : ip ≠ ip' := by
          rintro rfl
          exact absurd (hcache _ hold) (not_le.2 hlive)
        obtain ⟨time, htime, hexp, n, other, hallow, hanswer, hbegan⟩ :=
          h.allowed ip' reason expiry hold hlive
        exact ⟨time, htime, hexp, n, other, hallow, hanswer.cons fun hr => hip hr.1,
          hbegan.cons nofun⟩
      · -- the entry is the answer itself
        obtain ⟨hdecision, hexp⟩ := Prod.mk.inj heq
        rw [← hdecision] at httl
        refine ⟨r.now, le_rfl, ?_, id, found, ?_, .now _ _ rfl, hbegan.cons nofun⟩
        · rw [hexp, ← some.inj httl]
        · show (r.gate.policy.decide found).isAllowed = true
          rw [← hdecision]
          rfl }

/-- A lookup of `ip` is queued, when none is awaited for the address and no decision is
remembered. -/
theorem Sound.request (h : r.Sound) (hsource : r.gate.source = .background)
    (hreq : ip ∉ r.gate.requested) (hquiet : ∀ q ∈ r.queries, q.ip = ip → r.Quiet q)
    (hcache : r.gate.cache.entries.get? ip = none) :
    { r with
      gate := { r.gate with
        inFlight := insert ip r.gate.inFlight
        requested := r.gate.requested ++ [ip] } }.Sound :=
  { h with
    nodup := by
      refine nodup_append.2 ⟨h.nodup, nodup_singleton ip, ?_⟩
      rintro a ha b hb rfl
      rw [mem_singleton.1 hb] at ha
      exact hreq ha
    waiting := by
      intro q hq hw
      rcases mem_append.1 hw with hw | hw
      · exact h.waiting q hq hw
      · exact hquiet q hq (mem_singleton.1 hw)
    requested := by
      intro ip' hmem
      rcases mem_append.1 hmem with hmem | hmem
      · exact Finset.mem_insert_of_mem (h.requested ip' hmem)
      · exact Finset.mem_insert.2 (.inl (mem_singleton.1 hmem))
    inFlight := fun q hq => (h.inFlight q hq).imp_right Finset.mem_insert_of_mem
    cached := by
      intro ip' e he hlive
      obtain ⟨hnot, hother⟩ := h.cached ip' e he hlive
      refine ⟨?_, hother⟩
      rw [mem_append, mem_singleton]
      rintro (hmem | rfl)
      · exact hnot hmem
      · rw [hcache] at he
        cases he
    inPlaceOnly := fun hnot => absurd hsource hnot }

theorem Sound.note (h : r.Sound) (ip : IpAddr) (id asked : ℕ) :
    { r with history := .began ip id :: r.history, asked }.Sound :=
  { h with
    begun := fun q hq => (h.begun q hq).imp_right fun hs => hs.cons nofun
    allowed := by
      intro ip' reason expiry he hlive
      obtain ⟨time, htime, hexp, hallowed⟩ := h.allowed ip' reason expiry he hlive
      exact ⟨time, htime, hexp, hallowed.began ip id⟩ }

/-- A re-check is recorded, once nothing is awaited or remembered for the address. -/
theorem Sound.noteRecheck (h : r.Sound) (hquiet : ∀ q ∈ r.queries, q.ip = ip → r.Quiet q)
    (hcache : r.gate.cache.entries.get? ip = none) :
    { r with history := .recheck ip :: r.history }.Sound :=
  { h with
    begun := by
      intro q hq
      by_cases hip : q.ip = ip
      · exact .inl (hquiet q hq hip)
      · refine (h.begun q hq).imp_right fun hs => hs.cons ?_
        intro heq
        exact hip (GateEvent.recheck.inj heq).symm
    allowed := by
      intro ip' reason expiry he hlive
      have hip : ip ≠ ip' := by
        rintro rfl
        rw [hcache] at he
        cases he
      obtain ⟨time, htime, hexp, n, found, hallow, hanswer, hbegan⟩ :=
        h.allowed ip' reason expiry he hlive
      refine ⟨time, htime, hexp, n, found, hallow, hanswer.cons not_false, hbegan.cons ?_⟩
      intro heq
      exact hip (GateEvent.recheck.inj heq) }

/-- Under a raised floor the lookups of the address are stale, and the others stay quiet: a floor
is forgotten only after their time is over. -/
theorem Sound.quiet_raiseFloor (h : r.Sound) (hq : q ∈ r.queries) (hquiet : q.ip = ip ∨ r.Quiet q) :
    { r with gate := r.gate.raiseFloor ip r.now }.Quiet q := by
  by_cases hip : q.ip = ip
  · left
    have hle := (h.stamped q hq).1
    simp only [isStale, raiseFloor, hip, get?_insert_self, any_some,
      decide_eq_true_eq]
    omega
  · rcases hquiet with heq | hstale | hover
    · exact absurd heq hip
    · obtain ⟨f, hf, hle⟩ := isStale_iff.1 hstale
      have hbegun := h.floorAfter q hq f hf hle
      by_cases hkept : r.now - f.2 < recheckFloorKeep
      · refine .inl (isStale_iff.2 ⟨f, ?_, hle⟩)
        show ((r.gate.recheckFloor.retain _).insert ip _).get? q.ip = some f
        rw [get?_insert_ne _ _ hip, get?_retain_eq_some]
        exact ⟨hf, decide_eq_true hkept⟩
      · right
        show q.begun + peerLookupTimeout < r.now
        have hlong : peerLookupTimeout < recheckFloorKeep := by decide
        calc q.begun + peerLookupTimeout
            ≤ f.2 + peerLookupTimeout := Nat.add_le_add_right hbegun _
          _ < f.2 + recheckFloorKeep := Nat.add_lt_add_left hlong _
          _ ≤ r.now := Nat.add_le_of_le_sub' (h.floors q.ip f hf).2 (not_lt.1 hkept)
    · exact .inr hover

/-- A re-check raises the floor of its address. -/
theorem Sound.raiseFloor (h : r.Sound) (ip : IpAddr) (hsource : r.gate.source = .background) :
    { r with gate := r.gate.raiseFloor ip r.now }.Sound where
  stamped := fun q hq => ⟨(h.stamped q hq).1.trans (Nat.le_succ _), (h.stamped q hq).2⟩
  floors := by
    intro ip' f hf
    replace hf : ((r.gate.recheckFloor.retain _).insert ip _).get? ip' = some f := hf
    rw [Dict.get?_insert] at hf
    split_ifs at hf with hip
    · rw [← some.inj hf]
      exact ⟨le_rfl, le_rfl⟩
    · have hold := h.floors ip' f ((Dict.get?_retain_eq_some _ _ _ _).1 hf).1
      exact ⟨hold.1.trans (Nat.le_succ _), hold.2⟩
  floorAfter := by
    intro q hq f hf hle
    replace hf : ((r.gate.recheckFloor.retain _).insert ip _).get? q.ip = some f := hf
    rw [Dict.get?_insert] at hf
    split_ifs at hf with hip
    · rw [← some.inj hf]
      exact (h.stamped q hq).2
    · exact h.floorAfter q hq f ((Dict.get?_retain_eq_some _ _ _ _).1 hf).1 hle
  nodup := h.nodup
  single := by
    refine h.single.imp_of_mem fun hq hq' hquiet hip => ?_
    exact (hquiet hip).imp (fun hs => h.quiet_raiseFloor hq (.inr hs))
      fun hs => h.quiet_raiseFloor hq' (.inr hs)
  waiting := fun q hq hw => h.quiet_raiseFloor hq (.inr (h.waiting q hq hw))
  requested := h.requested
  inFlight := fun q hq => (h.inFlight q hq).imp_left fun hs => h.quiet_raiseFloor hq (.inr hs)
  cached := by
    intro ip' e he hlive
    obtain ⟨hreq, hquiet⟩ := h.cached ip' e he hlive
    exact ⟨hreq, fun q hq hip => h.quiet_raiseFloor hq (.inr (hquiet q hq hip))⟩
  begun := fun q hq => (h.begun q hq).imp_left fun hs => h.quiet_raiseFloor hq (.inr hs)
  allowed := h.allowed
  inPlaceOnly := fun hnot => absurd hsource hnot

/-- The lookups that were queued are started: each is the only one awaited for its address. -/
theorem Sound.beginAll (qs : List (IpAddr × ℕ)) :
    ∀ {r : PeerRun}, r.Sound → r.now = now → r.gate.source = .background →
      (qs.map Prod.fst).Nodup → r.gate.requested = [] →
      (∀ a ∈ qs, a.2 ≤ r.gate.clock ∧ a.1 ∈ r.gate.inFlight ∧
        (∀ f, r.gate.recheckFloor.get? a.1 = some f → f.1 < a.2) ∧
        (∀ q ∈ r.queries, q.ip = a.1 → r.Quiet q) ∧
        ∀ e, r.gate.cache.entries.get? a.1 = some e → e.2 ≤ now) →
      (qs.foldl (begin · now) r).Sound := by
  induction qs with
  | nil => exact fun h _ _ _ _ _ => h
  | cons a qs ih =>
    intro r h hnow hsource hnodup hreq hqs
    obtain ⟨hstamp, hflight, hfloor, hquiet, hcache⟩ := hqs a mem_cons_self
    rw [map_cons, nodup_cons] at hnodup
    have hsound : (r.begin now a).Sound :=
      { h.note a.1 r.asked (r.asked + 1) with
        stamped := forall_mem_cons.2 ⟨⟨hstamp, hnow.ge⟩, h.stamped⟩
        floorAfter := by
          refine forall_mem_cons.2 ⟨?_, h.floorAfter⟩
          intro f hf hle
          exact absurd hle (not_le.2 (hfloor f hf))
        single := by
          refine pairwise_cons.2 ⟨?_, h.single⟩
          intro q hq hip
          exact .inr (hquiet q hq hip.symm)
        waiting := by
          intro q _ hw
          rw [show (r.begin now a).gate.requested = [] from hreq] at hw
          cases hw
        inFlight := forall_mem_cons.2 ⟨.inr hflight, h.inFlight⟩
        cached := by
          intro ip e he hlive
          refine ⟨(h.cached ip e he hlive).1, forall_mem_cons.2 ⟨?_, ?_⟩⟩
          · rintro rfl
            exact absurd (hcache e he) (not_le.2 (hnow ▸ hlive))
          · exact (h.cached ip e he hlive).2
        begun := forall_mem_cons.2 ⟨.inr (.now _ _ rfl), (h.note a.1 r.asked 0).begun⟩
        inPlaceOnly := fun hnot => absurd hsource hnot }
    refine ih hsound hnow hsource hnodup.2 hreq ?_
    intro b hb
    obtain ⟨hstampb, hflightb, hfloorb, hquietb, hcacheb⟩ := hqs b (mem_cons_of_mem _ hb)
    refine ⟨hstampb, hflightb, hfloorb, forall_mem_cons.2 ⟨?_, hquietb⟩, hcacheb⟩
    intro hip
    replace hip : a.1 = b.1 := hip
    rw [hip] at hnodup
    exact absurd (mem_map_of_mem hb) hnodup.1

/-! ### Every operation -/

theorem asksInPlace_eq (r : PeerRun) (ip : IpAddr) (now : Instant) :
    r.asksInPlace ip now = (decide (r.gate.source = .immediate) &&
      ((r.gate.expire ip now).cache.entries.get? ip).isNone) := by
  unfold asksInPlace DecisionCache.get
  rw [isNone_map]
  rfl

theorem Sound.expire (h : r.Sound) (ip : IpAddr) :
    { r with gate := r.gate.expire ip r.now }.Sound := by
  refine h.shrink fun ip' e he => ?_
  rw [get?_expire, filter_eq_some_iff] at he
  exact he.1

/-- A question that is answered in place. -/
theorem Sound.inPlace (h : r.Sound) (found : PeerLookup) (hsource : r.gate.source = .immediate)
    (hcache : r.gate.cache.entries.get? ip = none) :
    { r.inPlace ip found r.now with gate := (r.gate.resolveDecision ip found r.now).1 }.Sound := by
  obtain ⟨hreq, hqueries⟩ := h.inPlaceOnly (by rw [hsource]; nofun)
  refine (h.note ip r.asked (r.asked + 1)).resolve found ?_ ?_ ?_ (.now _ _ rfl)
  · show ip ∉ r.gate.requested
    rw [hreq]
    exact not_mem_nil
  · intro q hq
    rw [show r.queries = [] from hqueries] at hq
    cases hq
  · intro e he
    rw [show r.gate.cache.entries.get? ip = none from hcache] at he
    cases he

theorem Sound.check (h : r.Sound) (hnow : r.now ≤ now) (canHold : Bool) (found : PeerLookup) :
    (r.step (.check ip now canHold found)).Sound := by
  have hexp := (h.advance hnow).expire ip
  simp only [step, asksInPlace_eq]
  rcases r.gate.check_cases ip now canHold found with ⟨e, he, hcheck⟩ | ⟨hnone, hcases⟩
  · simp only [he, hcheck, isNone_some, Bool.and_false, Bool.false_eq_true, if_false]
    exact hexp
  simp only [hnone]
  rcases hcases with ⟨hsource, hcheck⟩ | ⟨hsource, hcheck, -⟩ | ⟨hsource, hflight, hcheck⟩
  · simp only [hsource, hcheck, isNone_none, Bool.and_true, decide_true, if_true]
    exact hexp.inPlace found hsource hnone
  · simp only [hsource, hcheck, decide_false, Bool.false_and, Bool.false_eq_true, if_false]
    exact hexp
  · simp only [hsource, hcheck, reduceCtorEq, decide_false, Bool.false_and, Bool.false_eq_true,
      if_false]
    refine hexp.request hsource ?_ ?_ hnone
    · exact fun hmem => hflight (hexp.requested ip hmem)
    · intro q hq hip
      exact (hexp.inFlight q hq).resolve_right fun hmem => hflight (hip ▸ hmem)

theorem Sound.invalidate (h : r.Sound) (ip : IpAddr) :
    { r with gate := r.gate.invalidate ip }.Sound :=
  h.shrink fun _ _ he => (get?_of_get?_erase he).2

theorem Sound.recheck (h : r.Sound) (hnow : r.now ≤ now) (found : PeerLookup) :
    (r.step (.recheck ip now found)).Sound := by
  have hinv := (h.advance hnow).invalidate ip
  have hcache : (r.gate.invalidate ip).cache.entries.get? ip = none := get?_erase_self _ _
  simp only [step]
  have hidle : r.gate.source ≠ .background → ∀ q ∈ r.queries, q.ip = ip →
      PeerRun.Quiet { r with now, gate := r.gate.invalidate ip } q := by
    intro hsource q hq
    rw [(h.inPlaceOnly hsource).2] at hq
    cases hq
  rcases r.gate.recheck_cases ip now found with ⟨hsource, heq⟩ | ⟨hsource, heq⟩ | ⟨hsource, heq⟩
  · simp only [heq, hsource, reduceCtorEq, if_false]
    exact hinv.noteRecheck (hidle (by rw [hsource]; nofun)) hcache
  · simp only [heq, hsource, if_true]
    exact (hinv.noteRecheck (hidle (by rw [hsource]; nofun)) hcache).inPlace found hsource hcache
  · simp only [heq, hsource, reduceCtorEq, if_false]
    have hquiet := fun (q : PeerQuery) hq (hip : q.ip = ip) => hinv.quiet_raiseFloor hq (.inl hip)
    have hraised := (hinv.raiseFloor ip hsource).noteRecheck hquiet hcache
    unfold PeerGate.request
    by_cases hmem : ip ∈ ((r.gate.invalidate ip).raiseFloor ip now).requested
    · rw [if_pos hmem]
      exact hraised
    · rw [if_neg hmem]
      exact hraised.request hsource hmem hquiet hcache

theorem Sound.take (h : r.Sound) (hnow : r.now ≤ now) : (r.step (.take now)).Sound := by
  by_cases hsource : r.gate.source = .background
  · have hadv := h.advance hnow
    have hstart : { r with now, gate := r.gate.takeStampedRequests.1 }.Sound :=
      { hadv with
        stamped := fun q hq =>
          ⟨(hadv.stamped q hq).1.trans (Nat.le_add_right _ _), (hadv.stamped q hq).2⟩
        floors := fun ip f hf =>
          ⟨(hadv.floors ip f hf).1.trans (Nat.le_add_right _ _), (hadv.floors ip f hf).2⟩
        nodup := .nil
        waiting := nofun
        requested := nofun
        cached := fun ip e he hlive => ⟨not_mem_nil, (hadv.cached ip e he hlive).2⟩
        inPlaceOnly := fun hnot => absurd hsource hnot }
    refine Sound.beginAll _ hstart rfl hsource ?_ rfl ?_
    · show ((r.gate.requested.zipIdx (r.gate.clock + 1)).map Prod.fst).Nodup
      rw [zipIdx_map_fst]
      exact h.nodup
    · rintro ⟨ip, stamp⟩ ha
      obtain ⟨hlow, hhigh, hip⟩ := mem_zipIdx ha
      have hmem : ip ∈ r.gate.requested := hip ▸ getElem_mem _
      refine ⟨?_, hadv.requested ip hmem, ?_, ?_, ?_⟩
      · show stamp ≤ r.gate.clock + r.gate.requested.length
        omega
      · intro f hf
        have := (hadv.floors ip f hf).1
        show f.1 < stamp
        exact lt_of_le_of_lt this hlow
      · rintro q hq rfl
        exact hadv.waiting q hq hmem
      · intro e he
        by_contra hlive
        exact (hadv.cached ip e he (not_le.1 hlive)).1 hmem
  · have hempty := (h.inPlaceOnly hsource).1
    have hstep : r.step (.take now) = { r with now } := by
      simp only [step, PeerGate.takeStampedRequests, PeerGate.stamped, hempty]
      rcases r with ⟨⟨policy, source, cache, inFlight, requested, clock, floor⟩, _, _, _, _⟩
      simp only at hempty
      simp [hempty]
    rw [hstep]
    exact h.advance hnow

/-- An outstanding lookup that is answered in time and not stale is the one awaited. -/
theorem Sound.awaited (h : r.Sound) (hq : q ∈ r.queries) (hlive : ¬r.Quiet q) :
    q.ip ∉ r.gate.requested ∧ (∀ q' ∈ r.queries.erase q, q'.ip = q.ip → r.Quiet q') ∧
      (∀ e, r.gate.cache.entries.get? q.ip = some e → e.2 ≤ r.now) ∧
      Since (· = .began q.ip q.id) (· = .recheck q.ip) r.history := by
  refine ⟨fun hmem => hlive (h.waiting q hq hmem), ?_, ?_, (h.begun q hq).resolve_left hlive⟩
  · have hpair := (perm_cons_erase hq).pairwise h.single
      fun hqq hip => (hqq hip.symm).symm
    intro q' hq' hip
    exact ((pairwise_cons.1 hpair).1 q' hq' hip.symm).resolve_left hlive
  · intro e he
    by_contra hexp
    exact hlive ((h.cached q.ip e he (not_le.1 hexp)).2 q hq rfl)

theorem not_quiet (htime : now ≤ q.begun + peerLookupTimeout)
    (hstale : ¬r.gate.isStale q.ip q.stamp = true) : ¬{ r with now }.Quiet q := by
  rintro (hs | hover)
  · exact hstale hs
  · exact absurd htime (not_le.2 hover)

theorem Sound.answer (h : r.Sound) (hq : q ∈ r.queries) (hnow : r.now ≤ now)
    (htime : now ≤ q.begun + peerLookupTimeout) (found : PeerLookup) :
    (r.answer q found now).Sound := by
  have hadv := h.advance hnow
  have hleft := hadv.answered (erase_sublist (a := q))
  simp only [PeerRun.answer]
  by_cases hstale : r.gate.isStale q.ip q.stamp = true
  · rw [if_pos hstale]
    exact hleft
  · rw [if_neg hstale]
    obtain ⟨hreq, hquiet, hcache, hbegan⟩ := hadv.awaited hq (not_quiet htime hstale)
    exact hleft.resolve found hreq hquiet hcache hbegan

theorem Sound.step (h : r.Sound) {op : PeerOp} (hop : r.Timely op) : (r.step op).Sound := by
  cases op with
  | check ip now canHold found => exact h.check hop.1 canHold found
  | recheck ip now found => exact h.recheck hop.1 found
  | take now => exact h.take hop.1
  | answer id now found =>
    simp only [PeerRun.step]
    rcases eq_none_or_eq_some (r.query id) with hnone | ⟨q, hq⟩
    · rw [hnone]
      exact h.advance hop.1
    · rw [hq]
      exact h.answer (mem_of_find?_eq_some hq) hop.1 (hop.2 q hq) found

theorem sound_run {policy : AccessPolicy} {source : Source} {ops : List PeerOp}
    (h : Along Timely step (start policy source) ops) :
    (run step (start policy source) ops).Sound :=
  h.inv (fun _ _ hs hok => hs.step hok) (sound_start policy source)

/-! ### Admissions -/

theorem gate_beginAll (now : Instant) (qs : List (IpAddr × ℕ)) :
    ∀ r : PeerRun, (qs.foldl (begin · now) r).gate = r.gate := by
  induction qs with
  | nil => exact fun _ => rfl
  | cons a qs ih => exact fun r => ih (r.begin now a)

/-- The policy is never changed. -/
theorem policy_step (r : PeerRun) (op : PeerOp) : (r.step op).gate.policy = r.gate.policy := by
  cases op with
  | check ip now canHold found =>
    show (r.gate.check ip now canHold found).1.policy = r.gate.policy
    rcases r.gate.check_cases ip now canHold found with
      ⟨e, -, hcheck⟩ | ⟨-, ⟨-, hcheck⟩ | ⟨-, hcheck, -⟩ | ⟨-, -, hcheck⟩⟩ <;> rw [hcheck] <;> rfl
  | recheck ip now found =>
    show (r.gate.recheck ip now found).1.policy = r.gate.policy
    rcases r.gate.recheck_cases ip now found with ⟨-, heq⟩ | ⟨-, heq⟩ | ⟨-, heq⟩
    · rw [heq]
      rfl
    · rw [heq]
      rfl
    · rw [heq]
      unfold request
      split_ifs <;> rfl
  | take now =>
    simp only [step]
    rw [gate_beginAll]
    rfl
  | answer id now found =>
    simp only [step]
    rcases eq_none_or_eq_some (r.query id) with hnone | ⟨q, hq⟩
    · rw [hnone]
    · rw [hq]
      simp only [PeerRun.answer]
      split_ifs <;> rfl

theorem policy_run (policy : AccessPolicy) (source : Source) (ops : List PeerOp) :
    (run step (start policy source) ops).gate.policy = policy :=
  run_inv (I := fun r => r.gate.policy = policy) (fun r op _ h => (policy_step r op).trans h) rfl

variable {found : PeerLookup}

theorem justified_answered {policy : AccessPolicy} {h : List GateEvent} {id : ℕ}
    (hallow : (policy.decide found).isAllowed = true)
    (hbegan : Since (· = .began ip id) (· = .recheck ip) h) :
    Justified policy (.answered ip id found now :: h) ip now :=
  ⟨now, le_rfl, Nat.le_add_right _ _, id, found, hallow, .now _ _ rfl, hbegan.cons nofun⟩

/-- A check that says `Allow` is justified. -/
theorem Sound.check_justified (h : r.Sound) {canHold : Bool}
    (hnow : r.now ≤ now) (hallow : (r.gate.check ip now canHold found).2 = .allow) :
    Justified r.gate.policy (r.step (.check ip now canHold found)).history ip now := by
  simp only [PeerRun.step, asksInPlace_eq]
  rcases r.gate.check_cases ip now canHold found with ⟨e, he, hcheck⟩ | ⟨hnone, hcases⟩
  · -- a remembered admission that has not expired
    simp only [he, isNone_some, Bool.and_false, Bool.false_eq_true, if_false]
    rw [hcheck] at hallow
    obtain ⟨decision, expiry⟩ := e
    cases decision with
    | deny reason => cases hallow
    | allow reason =>
      have hmem := he
      replace hmem : ((r.gate.cache.expire ip now).entries.get? ip) = _ := hmem
      rw [get?_expire, filter_eq_some_iff] at hmem
      have hlive : now < expiry := by simpa using hmem.2
      obtain ⟨time, htime, hexp, hallowed⟩ :=
        (h.advance hnow).allowed ip reason expiry hmem.1 hlive
      exact ⟨time, htime, (hexp ▸ hlive).le, hallowed⟩
  · rcases hcases with ⟨hsource, hcheck⟩ | ⟨-, -, hnot⟩ | ⟨-, -, hcheck⟩
    · simp only [hnone, hsource, isNone_none, Bool.and_true, decide_true, if_true]
      rw [hcheck] at hallow
      refine justified_answered ?_ (.now _ _ rfl)
      by_contra hdeny
      simp [hdeny] at hallow
    · exact absurd hallow hnot
    · rw [hcheck] at hallow
      cases hallow

/-- An allowed answer admits what is held for its address, and justifies it. -/
theorem Sound.answer_justified (h : r.Sound) (hq : q ∈ r.queries) (hnow : r.now ≤ now)
    (htime : now ≤ q.begun + peerLookupTimeout)
    (hstale : ¬r.gate.isStale q.ip q.stamp = true)
    (hallow : (r.gate.policy.decide found).isAllowed = true) :
    Justified r.gate.policy (r.answer q found now).history q.ip now := by
  simp only [PeerRun.answer, if_neg hstale]
  obtain ⟨-, -, -, hbegan⟩ := (h.advance hnow).awaited hq (not_quiet htime hstale)
  exact justified_answered hallow hbegan

/-- **Every admission is justified.** Whatever is asked of a gate and however its lookups are
answered: an operation that admits connections of an address finds a lookup of that address that
the policy allowed, answered within the allow lifetime, begun after the latest re-check of the
address, and with no refusing answer since. -/
theorem admissions_justified {policy : AccessPolicy} {source : Source} {ops : List PeerOp}
    (op : PeerOp) {ip : IpAddr} (h : Along Timely step (start policy source) ops)
    (hop : (run step (start policy source) ops).Timely op)
    (hadmits : (run step (start policy source) ops).admits op = some ip) :
    Justified policy ((run step (start policy source) ops).step op).history ip op.time := by
  have hsound := sound_run h
  have hpolicy := policy_run policy source ops
  clear h
  generalize run step (start policy source) ops = r at hop hadmits hsound hpolicy ⊢
  obtain rfl := hpolicy
  cases op with
  | check ip' now canHold found =>
    simp only [admits] at hadmits
    split_ifs at hadmits with hallow
    obtain rfl := some.inj hadmits
    exact hsound.check_justified hop.1 hallow
  | recheck ip' now found => cases hadmits
  | take now => cases hadmits
  | answer id now found =>
    simp only [admits, bind_eq_some_iff] at hadmits
    obtain ⟨q, hq, hadmits⟩ := hadmits
    split_ifs at hadmits with hgood
    obtain rfl := some.inj hadmits
    rw [Bool.and_eq_true, Bool.not_eq_true'] at hgood
    simp only [step]
    rw [hq]
    exact hsound.answer_justified (mem_of_find?_eq_some hq) hop.1 (hop.2 q hq)
      (by rw [hgood.1]; nofun) hgood.2

/-- The owner of the node, and a policy that admits only them. -/
def ownerPeer : PeerIdentity := ⟨1, "owner@example.com", "laptop", []⟩
def ownerOnly : AccessPolicy := .fromParts (some ⟨1, "owner@example.com"⟩) [] []

/-- The owner connects, is looked up, and connects again ten seconds later. -/
def ownerReturns : List PeerOp :=
  [.check (.v4 1) 0 true (.error .notFound), .take 0, .answer 0 (fromSecs 1) (.ok ownerPeer)]

theorem admissions_justified_ownerReturns :
    Justified ownerOnly ((run step (start ownerOnly .background) ownerReturns).step
      (.check (.v4 1) (fromSecs 10) true (.error .notFound))).history (.v4 1) (fromSecs 10) :=
  admissions_justified (.check (.v4 1) (fromSecs 10) true (.error .notFound))
    ⟨⟨by decide, trivial⟩, ⟨by decide, trivial⟩, ⟨by decide, by decide +kernel⟩, trivial⟩
    ⟨by decide +kernel, trivial⟩ (by decide +kernel)

/-- **At most one lookup of an address counts.** In every state of a timely run, of two lookups of
an address the answer to one cannot be applied any more, an address waits for its lookup once and
not beside one that counts, and an address with a fresh answer has neither. -/
theorem lookups_single (policy : AccessPolicy) (source : Source) (ops : List PeerOp)
    (h : Along Timely step (start policy source) ops) :
    let r := run step (start policy source) ops
    r.queries.Pairwise (fun q q' => q.ip = q'.ip → r.Quiet q ∨ r.Quiet q') ∧
      r.gate.requested.Nodup ∧ (∀ q ∈ r.queries, q.ip ∈ r.gate.requested → r.Quiet q) ∧
      ∀ ip e, r.gate.cache.entries.get? ip = some e → r.now < e.2 →
        ip ∉ r.gate.requested ∧ ∀ q ∈ r.queries, q.ip = ip → r.Quiet q := by
  intro r
  have hsound := sound_run h
  exact ⟨hsound.single, hsound.nodup, hsound.waiting, hsound.cached⟩

/-- A re-check while the lookup of a check is out, and a second lookup. -/
def recheckWaiting : List PeerOp :=
  [.check (.v4 1) 0 true (.error .notFound), .take 1, .recheck (.v4 1) 2 (.error .notFound),
    .take 3]

theorem lookups_single_recheckWaiting :
    let r := run step (start ownerOnly .background) recheckWaiting
    r.queries.map (fun q => (q.id, q.ip)) = [(1, .v4 1), (0, .v4 1)] ∧
      r.queries.Pairwise fun q q' => q.ip = q'.ip → r.Quiet q ∨ r.Quiet q' :=
  ⟨by decide +kernel, (lookups_single ownerOnly .background recheckWaiting
    ⟨⟨by decide, trivial⟩, ⟨by decide, trivial⟩, ⟨by decide, trivial⟩, ⟨by decide, trivial⟩,
      trivial⟩).1⟩

end PeerRun

end Ghostframe.Transport
