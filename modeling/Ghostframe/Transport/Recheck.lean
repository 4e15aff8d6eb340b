import Ghostframe.Transport.PeerGateRun

/-!
# How long a revoked session stays open

Turns of the bridge's loop: something happens (a timer, a connection attempt, an accepted
or lost connection, a finished lookup), then the sessions that are due are re-checked and
the queued lookups are started. The loop is serviced at every due time, and every lookup
is delivered before its timeout.

* `revoked_sessions_close`: from the moment every new lookup of an address is refused or
  fails, its sessions are closed within
  `3 * PEER_LOOKUP_TIMEOUT + max interval RECHECK_RETRY_DELAY + RECHECK_RETRY_DELAY`, as
  long as no re-check of the address falls due while the answer to its last one is awaited;
* `revoked_session_stays`: without that, a session can stay open for any length of time:
  with an interval of one second and lookups that take three, every re-check makes the
  answer to the one before it stale.
-/

namespace Ghostframe.Transport

open Dict List Nat Option PeerGate SessionRechecker

/-! ### Re-checks in the background -/

namespace PeerGate

/-- No floor is above the clock. -/
def Floored (g : PeerGate) : Prop := ∀ ip f, g.recheckFloor.get? ip = some f → f.1 ≤ g.clock

/-- `g'` is `g` after the addresses `ips` were re-checked: their lookups are queued, and only
their earlier answers are stale now. -/
structure Rechecked (ips : Set IpAddr) (g g' : PeerGate) : Prop where
  source : g'.source = g.source
  floored : g.Floored → g'.Floored
  keeps : ∀ ip ∈ g.requested, ip ∈ g'.requested
  asks : ∀ ip ∈ ips, ip ∈ g'.requested
  stale : ∀ ip stamp, g'.isStale ip stamp = true → ip ∈ ips ∨ g.isStale ip stamp = true

variable {g g' g'' : PeerGate} {ips ips' : Set IpAddr}

theorem Rechecked.refl (g : PeerGate) : Rechecked ∅ g g :=
  ⟨rfl, id, fun _ h => h, fun _ h => h.elim, fun _ _ h => .inr h⟩

theorem Rechecked.trans (h : Rechecked ips g g') (h' : Rechecked ips' g' g'') :
    Rechecked (ips ∪ ips') g g'' where
  source := h'.source.trans h.source
  floored := h'.floored ∘ h.floored
  keeps ip hip := h'.keeps ip (h.keeps ip hip)
  asks ip hip := by
    rcases hip with hip | hip
    · exact h'.keeps ip (h.asks ip hip)
    · exact h'.asks ip hip
  stale ip stamp hstale := by
    rcases h'.stale ip stamp hstale with hip | hstale
    · exact .inl (.inr hip)
    · exact (h.stale ip stamp hstale).imp .inl id

theorem get?_raiseFloor {g : PeerGate} {ip ip' : IpAddr} {now : Instant} {f : ℕ × Instant}
    (h : (g.raiseFloor ip now).recheckFloor.get? ip' = some f) :
    (ip' = ip ∧ f.1 = g.clock + 1) ∨ (ip' ≠ ip ∧ g.recheckFloor.get? ip' = some f) := by
  unfold raiseFloor at h
  rw [get?_insert] at h
  split_ifs at h with hip
  · obtain rfl := some.inj h
    exact .inl ⟨hip, rfl⟩
  · exact .inr ⟨hip, ((get?_retain_eq_some _ _ _ _).1 h).1⟩

theorem raiseFloor_rechecked (g : PeerGate) (ip : IpAddr) (now : Instant) (hip : ip ∈ g.requested) :
    Rechecked {ip} g (g.raiseFloor ip now) where
  source := rfl
  floored hfloored ip' f hf := by
    rcases get?_raiseFloor hf with ⟨-, hf⟩ | ⟨-, hf⟩
    · exact hf.le
    · exact (hfloored ip' f hf).trans (le_succ _)
  keeps _ h := h
  asks ip' h := by
    rw [Set.mem_singleton_iff.1 h]
    exact hip
  stale ip' stamp hstale := by
    obtain ⟨f, hf, hle⟩ := isStale_iff.1 hstale
    rcases get?_raiseFloor hf with ⟨hip, -⟩ | ⟨-, hf⟩
    · exact .inl hip
    · exact .inr (isStale_iff.2 ⟨f, hf, hle⟩)

/-- Without a source that answers in place, a re-check queues a lookup. -/
theorem recheck_background {g : PeerGate} (h : g.source = .background) (ip : IpAddr)
    (now : Instant) (found : PeerLookup) :
    (g.recheck ip now found).2 = .pending ∧ Rechecked {ip} g (g.recheck ip now found).1 := by
  rcases g.recheck_cases ip now found with ⟨h', -⟩ | ⟨h', -⟩ | ⟨-, heq⟩
  · rw [h] at h'; cases h'
  · rw [h] at h'; cases h'
  rw [heq]
  refine ⟨rfl, ?_⟩
  have hraise := ((g.invalidate ip).request ip).raiseFloor_rechecked ip now (by
    unfold request
    split_ifs with hin
    · exact hin
    · exact mem_append_right _ mem_cons_self)
  have hcomm : ((g.invalidate ip).raiseFloor ip now).request ip =
      ((g.invalidate ip).request ip).raiseFloor ip now := by
    unfold request raiseFloor
    split_ifs <;> rfl
  have hrequest : Rechecked ∅ g ((g.invalidate ip).request ip) := by
    unfold request
    split_ifs
    · exact ⟨rfl, id, fun _ h => h, fun _ h => h.elim, fun _ _ h => .inr h⟩
    · exact ⟨rfl, id, fun _ h => mem_append_left _ h, fun _ h => h.elim, fun _ _ h => .inr h⟩
  rw [hcomm]
  simpa using hrequest.trans hraise

end PeerGate

variable {K : Type*} [DecidableEq K]

namespace SessionRechecker

open PeerGate

/-- Due sessions are re-checked in the background: each is due again an interval later. -/
theorem foldl_runDueOne (found : IpAddr → PeerLookup) (now : Instant) {keys : List K}
    (hkeys : keys.Nodup) (r : SessionRechecker K) {g : PeerGate} (hsource : g.source = .background)
    (closing : List K) :
    ∃ entries g', keys.foldl (runDueOne found now) (r, g, closing) =
        ({ r with entries }, g', closing) ∧
      (∀ k, entries.get? k =
        if k ∈ keys then (r.entries.get? k).map fun e => { e with nextAt := now + r.interval }
        else r.entries.get? k) ∧
      Rechecked {ip | ∃ k ∈ keys, ∃ e, r.entries.get? k = some e ∧ e.ip = ip} g g' := by
  induction keys generalizing r g with
  | nil => exact ⟨r.entries, g, rfl, fun _ => rfl, by simpa using Rechecked.refl g⟩
  | cons k keys ih =>
    obtain ⟨hk, hrest⟩ := nodup_cons.1 hkeys
    have hne : ∀ k' ∈ keys, k' ≠ k := fun k' hk' heq => hk (heq ▸ hk')
    rcases eq_none_or_eq_some (r.entries.get? k) with hnone | ⟨e, he⟩
    · have hone : runDueOne found now (r, g, closing) k = (r, g, closing) := by
        simp only [runDueOne, hnone]
      obtain ⟨entries, g', heq, hget, hgate⟩ := ih hrest r hsource
      refine ⟨entries, g', by rw [foldl_cons, hone, heq], fun k' => (hget k').trans ?_, ?_⟩
      · by_cases hk' : k' = k
        · simp [hk', hk, hnone]
        · simp [hk']
      · simpa [hnone] using hgate
    · obtain ⟨hpending, hrechecked⟩ := recheck_background hsource e.ip now (found e.ip)
      have hone : runDueOne found now (r, g, closing) k =
          (r.setNext k (now + r.interval), (g.recheck e.ip now (found e.ip)).1, closing) := by
        simp only [runDueOne, he, hpending]
      have hset : ∀ k', (r.setNext k (now + r.interval)).entries.get? k' =
          if k' = k then some { e with nextAt := now + r.interval } else r.entries.get? k' := by
        intro k'
        simp only [setNext, get?_modify, he, map_some]
      obtain ⟨entries, g', heq, hget, hgate⟩ :=
        ih hrest (r.setNext k (now + r.interval)) (hrechecked.source.trans hsource)
      refine ⟨entries, g', by rw [foldl_cons, hone, heq]; rfl, fun k' => (hget k').trans ?_, ?_⟩
      · rw [hset]
        by_cases hk' : k' = k
        · simp [hk', hk, he]
        · simp [hk', setNext]
      · convert hrechecked.trans hgate using 1
        ext ip
        simp only [Set.mem_ofPred_eq, mem_cons, Set.mem_union, Set.mem_singleton_iff]
        constructor
        · rintro ⟨k', rfl | hk', e', he', rfl⟩
          · exact .inl (by rw [some.inj (he.symm.trans he')])
          · exact .inr ⟨k', hk', e', by rw [hset, if_neg (hne k' hk')]; exact he', rfl⟩
        · rintro (rfl | ⟨k', hk', e', he', rfl⟩)
          · exact ⟨k, .inl rfl, e, he, rfl⟩
          · rw [hset, if_neg (hne k' hk')] at he'
            exact ⟨k', .inr hk', e', he', rfl⟩

omit [DecidableEq K] in
theorem ip_of_after {interval : Duration} {outcome : Recheck} {now : Instant} {e e' : RecheckEntry}
    (h : after interval outcome now e = some e') : e'.ip = e.ip := by
  cases outcome with
  | allowed | pending => exact (some.inj h) ▸ rfl
  | revoked => cases h
  | lookupFailed =>
    unfold after at h
    dsimp only at h
    split_ifs at h
    exact (some.inj h) ▸ rfl

/-- `run_due` in the background. -/
theorem runDue_spec (r : SessionRechecker K) {g : PeerGate} (hsource : g.source = .background)
    (found : IpAddr → PeerLookup) (now : Instant) :
    ∃ entries g', r.runDue g found now = ({ r with entries }, g', []) ∧
      (∀ k, entries.get? k = (r.entries.get? k).map fun e =>
        if e.nextAt ≤ now then { e with nextAt := now + r.interval } else e) ∧
      Rechecked {ip | ip ∈ r.dueIps now} g g' := by
  have hkeys : (r.dueKeys now).Nodup := r.entries.nodup_filter_toList _
  obtain ⟨entries, g', heq, hget, hgate⟩ := foldl_runDueOne found now hkeys r hsource []
  refine ⟨entries, g', heq, fun k => (hget k).trans ?_, ?_⟩
  · simp only [mem_dueKeys]
    rcases eq_none_or_eq_some (r.entries.get? k) with hnone | ⟨e, he⟩
    · simp [hnone]
    · by_cases hdue : e.nextAt ≤ now <;> simp [he, hdue]
  · have hips : {ip | ip ∈ r.dueIps now} =
        {ip | ∃ k ∈ r.dueKeys now, ∃ e, r.entries.get? k = some e ∧ e.ip = ip} := by
      ext ip
      simp only [Set.mem_ofPred_eq, mem_dueIps, mem_dueKeys]
      constructor
      · rintro ⟨k, e, he, hdue, hip⟩
        exact ⟨k, ⟨e, he, hdue⟩, e, he, hip⟩
      · rintro ⟨k, ⟨e, he, hdue⟩, e', he', hip⟩
        obtain rfl := some.inj (he.symm.trans he')
        exact ⟨k, e, he, hdue, hip⟩
    rw [hips]
    exact hgate

/-- `sync` changes nothing when the open sessions are the tracked ones. -/
theorem sync_of_tracked {r : SessionRechecker K} {live : Dict K IpAddr}
    (h : ∀ k, (r.entries.get? k).map RecheckEntry.ip = live.get? k) (now : Instant) :
    ∃ entries, r.sync live now = { r with entries } ∧ ∀ k, entries.get? k = r.entries.get? k := by
  have hretain : ∀ k, (r.entries.retain fun k _ => live.contains k).get? k = r.entries.get? k := by
    intro k
    rw [Dict.get?_retain, Dict.contains, ← h k]
    cases r.entries.get? k <;> simp
  have hfold : ∀ (sessions : List (K × IpAddr)) (r' : SessionRechecker K),
      (∀ s ∈ sessions, (r'.entries.get? s.1).any fun e => e.ip = s.2) →
      sessions.foldl (fun r s => r.track s.1 s.2 now) r' = r' := by
    intro sessions r' hall
    induction sessions with
    | nil => rfl
    | cons s sessions ih =>
      rw [foldl_cons, track, if_pos (hall s mem_cons_self)]
      exact ih fun s' hs' => hall s' (mem_cons_of_mem _ hs')
  unfold sync
  rw [hfold]
  · exact ⟨_, rfl, hretain⟩
  · intro s hs
    have hlive : live.get? s.1 = some s.2 := (live.mem_toList_iff s.1 s.2).1 hs
    rw [← h] at hlive
    obtain ⟨e, he, hip⟩ := map_eq_some_iff.1 hlive
    simp only [hretain, he, any_some, hip, decide_true]

end SessionRechecker

/-- The gate, the re-check schedule, the open sessions and the outstanding lookups. `awaiting`
holds the addresses with no answer applied since their last re-check. -/
structure RecheckRun (K : Type*) where
  gate : PeerGate
  rechecker : SessionRechecker K
  live : Dict K IpAddr := .empty
  queries : List PeerQuery := []
  asked : ℕ := 0
  now : Instant := 0
  awaiting : Finset IpAddr := ∅

/-- What the loop wakes up for. -/
inductive Arm (K : Type*)
  | timer
  | attempt (ip : IpAddr) (canHold : Bool)
  | accepted (k : K) (ip : IpAddr)
  | gone (k : K)
  | lookedUp (id : ℕ) (found : PeerLookup)

/-- The session that is opened. -/
def Arm.opened : Arm K → Option K
  | .accepted k _ => some k
  | _ => none

/-- The lookup that is answered, and how. -/
def Arm.answered : Arm K → Option (ℕ × PeerLookup)
  | .lookedUp id found => some (id, found)
  | _ => none

namespace RecheckRun

variable (r : RecheckRun K)

/-- `revoke_session`, and any other end of a session; the second for which the connection of an
evicted one stays open is left out. -/
def close (k : K) : RecheckRun K :=
  { r with live := r.live.erase k, rechecker := r.rechecker.forget k }

/-- The outstanding lookup numbered `id`. -/
def query (id : ℕ) : Option PeerQuery := r.queries.find? fun q => q.id = id

/-- `apply_peer_lookup`. -/
def applyPeerLookup (q : PeerQuery) (found : PeerLookup) (now : Instant) :
    RecheckRun K :=
  let r := { r with queries := r.queries.erase q }
  if r.gate.isStale q.ip q.stamp then r
  else
    let (rechecker, closing) := r.rechecker.apply q.ip (r.gate.policy.decide found) now
    closing.foldl close
      { r with
        gate := (r.gate.resolveDecision q.ip found now).1
        rechecker
        awaiting := r.awaiting.erase q.ip }

/-- What the loop woke up for is done. -/
def wake (now : Instant) : Arm K → RecheckRun K
  | .timer => r
  | .attempt ip canHold => { r with gate := (r.gate.check ip now canHold (.error .notFound)).1 }
  | .accepted k ip =>
    { r with live := r.live.insert k ip, rechecker := r.rechecker.track k ip now }
  | .gone k => r.close k
  | .lookedUp id found =>
    match r.query id with
    | none => r
    | some q => r.applyPeerLookup q found now

/-- `sweep_rechecks`. -/
def sweepRechecks (now : Instant) : RecheckRun K :=
  if r.rechecker.nextDue.all fun due => now < due then r
  else
    let synced := r.rechecker.sync r.live now
    let (rechecker, gate, closing) := synced.runDue r.gate (fun _ => .error .notFound) now
    closing.foldl close
      { r with
        gate
        rechecker
        awaiting := r.awaiting ∪ (synced.dueIps now).toFinset }

/-- `spawn_peer_lookups`: the queued lookups are started. -/
def spawnPeerLookups (now : Instant) : RecheckRun K :=
  let (gate, started) := r.gate.takeStampedRequests
  { r with
    gate
    queries := (started.zipIdx r.asked).map (fun a => ⟨a.2, a.1.1, a.1.2, now⟩) ++ r.queries
    asked := r.asked + started.length }

/-- One turn of the loop. -/
def turn (t : Instant × Arm K) : RecheckRun K :=
  (((r.wake t.1 t.2).sweepRechecks t.1).spawnPeerLookups t.1 |> fun r => { r with now := t.1 })

/-- A bridge whose peers are looked up in the background. -/
def start (policy : AccessPolicy) (interval : Duration) : RecheckRun K where
  gate := { policy, source := .background }
  rechecker := { interval }

/-! ### What a turn's stages do -/

/-- The tracked sessions are the open ones, each at its address. -/
def Tracked : Prop :=
  ∀ k, (r.rechecker.entries.get? k).map RecheckEntry.ip = r.live.get? k

/-- The sweep re-checks every session that is due. -/
theorem sweepRechecks_spec {r : RecheckRun K} (hsource : r.gate.source = .background)
    (htracked : r.Tracked) (now : Instant) :
    ∃ entries gate, r.sweepRechecks now =
        { r with
          gate
          rechecker := { r.rechecker with entries }
          awaiting := r.awaiting ∪ (r.rechecker.dueIps now).toFinset } ∧
      (∀ k, entries.get? k = (r.rechecker.entries.get? k).map fun e =>
        if e.nextAt ≤ now then { e with nextAt := now + r.rechecker.interval } else e) ∧
      PeerGate.Rechecked {ip | ip ∈ r.rechecker.dueIps now} r.gate gate := by
  by_cases hnone : (r.rechecker.nextDue.all fun due => decide (now < due)) = true
  · have hlater : ∀ k e, r.rechecker.entries.get? k = some e → now < e.nextAt := by
      refine le_nextDue_iff.1 fun due hdue => ?_
      simpa [mem_def.1 hdue] using hnone
    have hdue : r.rechecker.dueIps now = [] := by
      refine eq_nil_iff_forall_not_mem.2 fun ip hip => ?_
      obtain ⟨k, e, he, hle, -⟩ := mem_dueIps.1 hip
      exact absurd (hlater k e he) hle.not_gt
    refine ⟨r.rechecker.entries, r.gate, by simp [sweepRechecks, hnone, hdue], fun k => ?_,
      by simpa [hdue] using PeerGate.Rechecked.refl r.gate⟩
    rcases eq_none_or_eq_some (r.rechecker.entries.get? k) with hget | ⟨e, he⟩
    · rw [hget]; rfl
    · rw [he, map_some, if_neg (hlater k e he).not_ge]
  · obtain ⟨synced, hsynced, hsync⟩ := sync_of_tracked htracked now
    obtain ⟨entries, gate, heq, hget, hgate⟩ := runDue_spec
      { r.rechecker with entries := synced } hsource (fun _ => .error .notFound) now
    have hdue : ∀ ip, ip ∈ dueIps { r.rechecker with entries := synced } now ↔
        ip ∈ r.rechecker.dueIps now := by
      intro ip
      simp only [mem_dueIps, hsync]
    have hawaited : (dueIps { r.rechecker with entries := synced } now).toFinset =
        (r.rechecker.dueIps now).toFinset := by
      ext ip
      simp [hdue]
    refine ⟨entries, gate, ?_, fun k => ?_, by simpa only [hdue] using hgate⟩
    · simp only [sweepRechecks, if_neg hnone, hsynced, heq, foldl_nil, hawaited]
    · rw [hget, hsync]

omit [DecidableEq K] in
/-- A queued lookup is started, above every floor. -/
theorem spawned_of_requested {r : RecheckRun K} (hfloored : r.gate.Floored) {ip : IpAddr}
    (hip : ip ∈ r.gate.requested) (now : Instant) :
    ∃ q ∈ (r.spawnPeerLookups now).queries, q.ip = ip ∧ q.begun = now ∧
      (r.spawnPeerLookups now).gate.isStale ip q.stamp = false := by
  obtain ⟨i, hi⟩ := mem_iff_getElem?.1 hip
  have hstamped : (ip, r.gate.clock + 1 + i) ∈ stamped r.gate.clock r.gate.requested := by
    rw [stamped, mk_mem_zipIdx_iff_le_and_getElem?_sub]
    simpa using hi
  obtain ⟨j, hj⟩ := mem_iff_getElem?.1 hstamped
  refine ⟨⟨r.asked + j, ip, r.gate.clock + 1 + i, now⟩, ?_, rfl, rfl, ?_⟩
  · refine mem_append_left _ (mem_map.2 ⟨((ip, r.gate.clock + 1 + i), r.asked + j), ?_, rfl⟩)
    rw [mk_mem_zipIdx_iff_le_and_getElem?_sub]
    simpa using hj
  · by_contra hstale
    obtain ⟨f, hf, hle⟩ := isStale_iff.1 (by simpa using hstale)
    have : f.1 ≤ r.gate.clock := hfloored ip f hf
    omega

omit [DecidableEq K] in
theorem mem_queries_spawn {r : RecheckRun K} {now : Instant} {q : PeerQuery}
    (h : q ∈ (r.spawnPeerLookups now).queries) : q ∈ r.queries ∨ q.begun = now := by
  rcases mem_append.1 h with h | h
  · obtain ⟨a, -, rfl⟩ := mem_map.1 h
    exact .inr rfl
  · exact .inl h

theorem foldl_close (closing : List K) (r : RecheckRun K) :
    ∃ entries live, closing.foldl close r =
        { r with live, rechecker := { r.rechecker with entries } } ∧
      (∀ k, entries.get? k = if k ∈ closing then none else r.rechecker.entries.get? k) ∧
      ∀ k, live.get? k = if k ∈ closing then none else r.live.get? k := by
  induction closing generalizing r with
  | nil => exact ⟨_, _, rfl, by simp, by simp⟩
  | cons k closing ih =>
    obtain ⟨entries, live, heq, hget, hlive⟩ := ih (r.close k)
    refine ⟨entries, live, heq, fun k' => (hget k').trans ?_, fun k' => (hlive k').trans ?_⟩
    · simp only [close, forget, get?_erase, mem_cons]
      by_cases hk' : k' = k <;> simp [hk']
    · simp only [close, get?_erase, mem_cons]
      by_cases hk' : k' = k <;> simp [hk']

/-- An answer that is not stale reaches every session at its address. -/
theorem applyPeerLookup_spec {r : RecheckRun K} (htracked : r.Tracked) {q : PeerQuery}
    (hfresh : r.gate.isStale q.ip q.stamp = false) (found : PeerLookup) (now : Instant) :
    ∃ rechecker live, r.applyPeerLookup q found now =
        { r with
          gate := (r.gate.resolveDecision q.ip found now).1
          queries := r.queries.erase q
          awaiting := r.awaiting.erase q.ip
          rechecker
          live } ∧
      rechecker.interval = r.rechecker.interval ∧
      (∀ k, rechecker.entries.get? k = (r.rechecker.entries.get? k).bind fun e =>
        if e.ip = q.ip then after r.rechecker.interval
          (.fromDecision (r.gate.policy.decide found)) now e
        else some e) ∧
      ∀ k, (rechecker.entries.get? k).map RecheckEntry.ip = live.get? k := by
  obtain ⟨hinterval, hget, hclosing⟩ :=
    r.rechecker.apply_spec q.ip (r.gate.policy.decide found) now
  obtain ⟨entries, live, heq, hget', hlive⟩ :=
    foldl_close (r.rechecker.apply q.ip (r.gate.policy.decide found) now).2
      { r with
        queries := r.queries.erase q
        gate := (r.gate.resolveDecision q.ip found now).1
        rechecker := (r.rechecker.apply q.ip (r.gate.policy.decide found) now).1
        awaiting := r.awaiting.erase q.ip }
  have hentries : ∀ k, entries.get? k = (r.rechecker.entries.get? k).bind fun e =>
      if e.ip = q.ip then after r.rechecker.interval
        (.fromDecision (r.gate.policy.decide found)) now e
      else some e := by
    intro k
    rw [hget' k]
    split_ifs with hk
    · obtain ⟨e, he, hip, hafter⟩ := (hclosing k).1 hk
      simp [he, hip, hafter]
    · exact hget k
  refine ⟨{ (r.rechecker.apply q.ip (r.gate.policy.decide found) now).1 with entries }, live, ?_,
    hinterval, hentries, fun k => ?_⟩
  · simp only [applyPeerLookup, hfresh, Bool.false_eq_true, if_false]
    exact heq
  rw [hentries, hlive k, ← htracked k]
  simp only [hclosing]
  rcases eq_none_or_eq_some (r.rechecker.entries.get? k) with hnone | ⟨e, he⟩
  · simp [hnone]
  by_cases hip : e.ip = q.ip
  · rcases eq_none_or_eq_some (after r.rechecker.interval
        (.fromDecision (r.gate.policy.decide found)) now e) with hafter | ⟨e', hafter⟩
    · simp [he, hip, hafter]
    · simp [he, hip, hafter, ip_of_after hafter]
  · simp [he, hip]

/-! ### The loop is serviced -/

/-- The loop wakes at every due time, every lookup is delivered before its timeout, and a new
connection gets a handle no open session has. -/
def Serviced (t : Instant × Arm K) : Prop :=
  r.now ≤ t.1 ∧ (∀ due ∈ r.rechecker.nextDue, t.1 ≤ due) ∧
    (∀ q ∈ r.queries, t.1 ≤ q.begun + peerLookupTimeout) ∧
    ∀ k ∈ t.2.opened, r.live.get? k = none

/-- No re-check of `ip` falls due while the answer to its last one is awaited. -/
def Spaced (ip : IpAddr) (r : RecheckRun K) (t : Instant × Arm K) : Prop :=
  ip ∈ (r.wake t.1 t.2).rechecker.dueIps t.1 → ip ∉ (r.wake t.1 t.2).awaiting

/-- Lookups of `ip` that begin after `since` are refused or fail. -/
def Refused (ip : IpAddr) (since : Instant) (r : RecheckRun K) (t : Instant × Arm K) : Prop :=
  ∀ a ∈ t.2.answered, ∀ q ∈ r.query a.1, q.ip = ip → since < q.begun →
    (r.gate.policy.decide a.2).isAllowed = false

instance (r : RecheckRun K) (t : Instant × Arm K) : Decidable (Serviced r t) :=
  inferInstanceAs (Decidable (_ ∧ _ ∧ _ ∧ _))

instance (ip : IpAddr) (r : RecheckRun K) (t : Instant × Arm K) : Decidable (Spaced ip r t) :=
  inferInstanceAs (Decidable (_ → _))

instance (ip : IpAddr) (since : Instant) (r : RecheckRun K) (t : Instant × Arm K) :
    Decidable (Refused ip since r t) :=
  inferInstanceAs (Decidable (∀ a ∈ t.2.answered, ∀ q ∈ r.query a.1, _ → _ → _))

/-! ### Every session is re-checked in time -/

/-- What holds at time `now` of a serviced loop. -/
structure Tended (interval : Duration) (now : Instant) (r : RecheckRun K) : Prop where
  background : r.gate.source = .background
  floored : r.gate.Floored
  tracked : r.Tracked
  interval_eq : r.rechecker.interval = interval
  due : ∀ k e, r.rechecker.entries.get? k = some e →
    now ≤ e.nextAt ∧ e.nextAt ≤ now + max interval recheckRetryDelay
  timely : ∀ q ∈ r.queries, now ≤ q.begun + peerLookupTimeout

variable {interval : Duration} {now : Instant} {r : RecheckRun K} {t : Instant × Arm K}

theorem Tended.later (h : Tended interval r.now r) (hserviced : Serviced r t) :
    Tended interval t.1 r where
  background := h.background
  floored := h.floored
  tracked := h.tracked
  interval_eq := h.interval_eq
  due k e he :=
    ⟨le_nextDue_iff.1 hserviced.2.1 k e he,
      (h.due k e he).2.trans (Nat.add_le_add_right hserviced.1 _)⟩
  timely := hserviced.2.2.1

theorem after_due {outcome : Recheck} {e e' : RecheckEntry}
    (h : after interval outcome now e = some e')
    (hdue : now ≤ e.nextAt ∧ e.nextAt ≤ now + max interval recheckRetryDelay) :
    now ≤ e'.nextAt ∧ e'.nextAt ≤ now + max interval recheckRetryDelay := by
  cases outcome with
  | allowed =>
    obtain rfl := some.inj h
    exact ⟨le_add_right _ _, Nat.add_le_add_left (le_max_left _ _) _⟩
  | revoked => cases h
  | pending => exact some.inj h ▸ hdue
  | lookupFailed =>
    unfold SessionRechecker.after at h
    split_ifs at h
    obtain rfl := some.inj h
    exact ⟨le_add_right _ _, Nat.add_le_add_left (le_max_right _ _) _⟩

theorem Tended.close (h : Tended interval now r) (k : K) : Tended interval now (r.close k) where
  background := h.background
  floored := h.floored
  tracked k' := by
    simp only [RecheckRun.close, forget, get?_erase]
    split_ifs
    · rfl
    · exact h.tracked k'
  interval_eq := h.interval_eq
  due k' e he := h.due k' e (get?_of_get?_erase he).2
  timely := h.timely

theorem Tended.applyPeerLookup (h : Tended interval now r) (q : PeerQuery) (found : PeerLookup) :
    Tended interval now (r.applyPeerLookup q found now) := by
  cases hstale : r.gate.isStale q.ip q.stamp with
  | true =>
    have heq : r.applyPeerLookup q found now = { r with queries := r.queries.erase q } := by
      simp only [RecheckRun.applyPeerLookup, hstale, if_true]
    rw [heq]
    exact { h with timely := fun q' hq' => h.timely q' (mem_of_mem_erase hq') }
  | false =>
    obtain ⟨rechecker, live, heq, hinterval, hget, htracked⟩ :=
      applyPeerLookup_spec h.tracked hstale found now
    rw [heq]
    refine ⟨h.background, h.floored, htracked, hinterval.trans h.interval_eq, fun k e' he' => ?_,
      fun q' hq' => h.timely q' (mem_of_mem_erase hq')⟩
    · rw [hget, bind_eq_some_iff] at he'
      obtain ⟨e, he, hafter⟩ := he'
      split_ifs at hafter
      · rw [h.interval_eq] at hafter
        exact after_due hafter (h.due k e he)
      · exact some.inj hafter ▸ h.due k e he

theorem Tended.track (h : Tended interval now r) {k : K} (hnew : r.live.get? k = none)
    (ip : IpAddr) :
    Tended interval now
      { r with live := r.live.insert k ip, rechecker := r.rechecker.track k ip now } := by
  have hnone : r.rechecker.entries.get? k = none := by
    simpa [hnew] using h.tracked k
  have heq : r.rechecker.track k ip now =
      { r.rechecker with entries := r.rechecker.entries.insert k ⟨ip, now + interval, false⟩ } := by
    simp only [SessionRechecker.track, hnone, any_none, Bool.false_eq_true, if_false,
      h.interval_eq]
  rw [heq]
  refine { h with tracked := fun k' => ?_, due := fun k' e he => ?_ }
  · simp only [get?_insert]
    split_ifs
    · rfl
    · exact h.tracked k'
  · simp only [get?_insert] at he
    split_ifs at he
    · obtain rfl := some.inj he
      exact ⟨le_add_right _ _, Nat.add_le_add_left (le_max_left _ _) _⟩
    · exact h.due k' e he

theorem check_gate (g : PeerGate) (hsource : g.source = .background) (ip : IpAddr) (now : Instant)
    (canHold : Bool) (found : PeerLookup) :
    (g.check ip now canHold found).1.source = .background ∧
      (g.check ip now canHold found).1.clock = g.clock ∧
      (g.check ip now canHold found).1.recheckFloor = g.recheckFloor := by
  rcases g.check_cases ip now canHold found with
    ⟨e, -, heq⟩ | ⟨-, ⟨himm, -⟩ | ⟨-, heq, -⟩ | ⟨-, -, heq⟩⟩
  · rw [heq]; exact ⟨hsource, rfl, rfl⟩
  · rw [hsource] at himm; cases himm
  · rw [heq]; exact ⟨hsource, rfl, rfl⟩
  · rw [heq]; exact ⟨hsource, rfl, rfl⟩

theorem Tended.wake (h : Tended interval r.now r) (hserviced : Serviced r t) :
    Tended interval t.1 (r.wake t.1 t.2) := by
  have hlater := h.later hserviced
  obtain ⟨now, arm⟩ := t
  cases arm with
  | timer => exact hlater
  | attempt ip canHold =>
    obtain ⟨hsource, hclock, hfloor⟩ :=
      check_gate r.gate h.background ip now canHold (.error .notFound)
    refine { hlater with background := hsource, floored := fun ip' f hf => ?_ }
    simp only [RecheckRun.wake] at hf ⊢
    rw [hfloor] at hf
    rw [hclock]
    exact h.floored ip' f hf
  | accepted k ip => exact hlater.track (hserviced.2.2.2 k rfl) ip
  | gone k => exact hlater.close k
  | lookedUp id found =>
    simp only [RecheckRun.wake]
    cases r.query id with
    | none => exact hlater
    | some q => exact hlater.applyPeerLookup q found

theorem Tended.sweep (h : Tended interval now r) : Tended interval now (r.sweepRechecks now) := by
  obtain ⟨entries, gate, heq, hget, hgate⟩ := sweepRechecks_spec h.background h.tracked now
  rw [heq]
  refine ⟨hgate.source.trans h.background, hgate.floored h.floored, fun k => ?_, h.interval_eq,
    fun k e' he' => ?_, h.timely⟩
  · rw [hget, ← h.tracked k, Option.map_map]
    congr 1
    funext e
    simp only [Function.comp_apply]
    split_ifs <;> rfl
  · rw [hget, map_eq_some_iff] at he'
    obtain ⟨e, he, rfl⟩ := he'
    split_ifs
    · rw [h.interval_eq]
      exact ⟨le_add_right _ _, Nat.add_le_add_left (le_max_left _ _) _⟩
    · exact h.due k e he

theorem Tended.spawn (h : Tended interval now r) :
    Tended interval now (r.spawnPeerLookups now) where
  background := h.background
  floored ip f hf := (h.floored ip f hf).trans (Nat.le_add_right _ _)
  tracked := h.tracked
  interval_eq := h.interval_eq
  due := h.due
  timely q hq := by
    rcases mem_queries_spawn hq with hq | hq
    · exact h.timely q hq
    · exact hq ▸ le_add_right _ _

theorem Tended.turn (h : Tended interval r.now r) (hserviced : Serviced r t) :
    Tended interval (r.turn t).now (r.turn t) :=
  have hspawned := (h.wake hserviced).sweep.spawn
  { hspawned with }

theorem start_tended (policy : AccessPolicy) (interval : Duration) :
    Tended interval (start policy interval : RecheckRun K).now
      (start policy interval : RecheckRun K) where
  background := rfl
  floored ip f hf := by simp [start] at hf
  tracked k := by simp [start]
  interval_eq := rfl
  due k e he := by simp [start] at he
  timely q hq := by simp [start] at hq

/-! ### The deadline of a session whose address is refused -/

/-- When a session is next re-checked at the latest, once its address is refused: at once, or
after a lookup that failed. -/
def deadline (interval : Duration) (since : Instant) (failedOnce : Bool) : Instant :=
  since + peerLookupTimeout + max interval recheckRetryDelay +
    if failedOnce then peerLookupTimeout + recheckRetryDelay else 0

/-- An answer about `ip` is under way that no re-check has made stale. -/
def Settling (r : RecheckRun K) (ip : IpAddr) (until_ : Instant) : Prop :=
  ip ∈ r.awaiting ∧ ∃ q ∈ r.queries, q.ip = ip ∧ q.begun ≤ until_ ∧
    r.gate.isStale ip q.stamp = false

/-- The session is open, and is re-checked by its deadline or was. -/
def Doomed (interval : Duration) (k : K) (ip : IpAddr) (since : Instant) (r : RecheckRun K) :
    Prop :=
  ∃ e, r.rechecker.entries.get? k = some e ∧ e.ip = ip ∧
    (e.nextAt ≤ deadline interval since e.failedOnce ∨
      r.Settling ip (deadline interval since e.failedOnce))

variable {k : K} {ip : IpAddr} {since : Instant}

theorem Doomed.now_le (h : Doomed interval k ip since r) (htended : Tended interval now r) :
    ∃ e, r.rechecker.entries.get? k = some e ∧ e.ip = ip ∧
      now ≤ deadline interval since e.failedOnce + peerLookupTimeout := by
  obtain ⟨e, he, hip, hdue | ⟨-, q, hq, -, hbegun, -⟩⟩ := h
  · exact ⟨e, he, hip, ((htended.due k e he).1.trans hdue).trans (le_add_right _ _)⟩
  · exact ⟨e, he, hip, (htended.timely q hq).trans (Nat.add_le_add_right hbegun _)⟩

/-- The next re-check after an answer comes by the deadline. -/
theorem after_deadline {decision : Decision} {e e' : RecheckEntry}
    (h : SessionRechecker.after interval (.fromDecision decision) now e = some e')
    (hnow : now ≤ deadline interval since e.failedOnce + peerLookupTimeout)
    (hallowed : decision.isAllowed = true → now ≤ since + peerLookupTimeout) :
    e'.nextAt ≤ deadline interval since e'.failedOnce := by
  have hmax : interval ≤ max interval recheckRetryDelay := le_max_left _ _
  cases decision with
  | allow reason =>
    obtain rfl := some.inj h
    have hlate := hallowed rfl
    simp only [deadline, Bool.false_eq_true, if_false, Nat.add_zero]
    exact Nat.add_le_add hlate hmax
  | deny reason =>
    cases reason with
    | lookupFailed message =>
      simp only [SessionRechecker.after, Recheck.fromDecision] at h
      cases hfailed : e.failedOnce with
      | true => simp [hfailed] at h
      | false =>
        simp only [hfailed, Bool.not_false, if_true, Option.some.injEq] at h
        subst h
        simp only [hfailed, deadline, Bool.false_eq_true, if_false, if_true, Nat.add_zero] at hnow ⊢
        rw [← Nat.add_assoc]
        exact Nat.add_le_add_right hnow _
    | unknownPeer => cases h
    | userNotAllowed => cases h
    | tagsNotAllowed => cases h
    | noIdentitySource => cases h

/-- A finished lookup of any address leaves the session doomed, or closes it. -/
theorem Doomed.applyPeerLookup (h : Doomed interval k ip since r) (htended : Tended interval now r)
    {q : PeerQuery} (hq : q ∈ r.queries) {found : PeerLookup}
    (hrefused : q.ip = ip → since < q.begun → (r.gate.policy.decide found).isAllowed = false) :
    (r.applyPeerLookup q found now).live.get? k = none ∨
      Doomed interval k ip since (r.applyPeerLookup q found now) := by
  obtain ⟨e₀, he₀, -, hnow⟩ := h.now_le htended
  obtain ⟨e, he, hip, hdoom⟩ := h
  obtain rfl := some.inj (he₀.symm.trans he)
  cases hstale : r.gate.isStale q.ip q.stamp with
  | true =>
    have heq : r.applyPeerLookup q found now = { r with queries := r.queries.erase q } := by
      simp only [RecheckRun.applyPeerLookup, hstale, if_true]
    rw [heq]
    refine .inr ⟨e₀, he, hip, hdoom.imp id ?_⟩
    rintro ⟨hawait, q', hq', hip', hbegun, hfresh⟩
    have hne : q' ≠ q := by
      rintro rfl
      rw [hip', hfresh] at hstale
      cases hstale
    exact ⟨hawait, q', (mem_erase_of_ne hne).2 hq', hip', hbegun, hfresh⟩
  | false =>
    obtain ⟨rechecker, live, heq, -, hget, htracked⟩ :=
      applyPeerLookup_spec htended.tracked hstale found now
    rw [heq]
    by_cases hqip : q.ip = ip
    · -- the answer is about this session: it is closed, or re-checked by its deadline
      have hentry := hget k
      rw [he, bind_some, if_pos (hip.trans hqip.symm), htended.interval_eq] at hentry
      rcases eq_none_or_eq_some (after interval
          (.fromDecision (r.gate.policy.decide found)) now e₀) with hafter | ⟨e', hafter⟩
      · left
        rw [← htracked k, hentry, hafter]
        rfl
      · refine .inr ⟨e', hentry.trans hafter, (ip_of_after hafter).trans hip,
          .inl (after_deadline hafter hnow fun hallowed => ?_)⟩
        have hbegun : q.begun ≤ since := by
          by_contra hlate
          rw [hrefused hqip (not_le.1 hlate)] at hallowed
          cases hallowed
        exact (htended.timely q hq).trans (Nat.add_le_add_right hbegun _)
    · have hentry := hget k
      rw [he, bind_some, if_neg (by rw [hip]; exact Ne.symm hqip)] at hentry
      refine .inr ⟨e₀, hentry, hip, hdoom.imp id ?_⟩
      rintro ⟨hawait, q', hq', hip', hbegun, hfresh⟩
      have hne : q' ≠ q := fun heq => hqip (heq ▸ hip')
      exact ⟨Finset.mem_erase.2 ⟨Ne.symm hqip, hawait⟩, q', (mem_erase_of_ne hne).2 hq', hip',
        hbegun, hfresh⟩

theorem Doomed.wake (h : Doomed interval k ip since r) (htended : Tended interval r.now r)
    (hserviced : Serviced r t) (hrefused : Refused ip since r t) :
    (r.wake t.1 t.2).live.get? k = none ∨ Doomed interval k ip since (r.wake t.1 t.2) := by
  have hlater := htended.later hserviced
  obtain ⟨now, arm⟩ := t
  cases arm with
  | timer => exact .inr h
  | attempt ip' canHold =>
    obtain ⟨-, -, hfloor⟩ :=
      check_gate r.gate htended.background ip' now canHold (.error .notFound)
    obtain ⟨e, he, hip, hdoom⟩ := h
    refine .inr ⟨e, he, hip, hdoom.imp id ?_⟩
    rintro ⟨hawait, q, hq, hip, hbegun, hfresh⟩
    refine ⟨hawait, q, hq, hip, hbegun, ?_⟩
    simp only [RecheckRun.wake, isStale, hfloor]
    exact hfresh
  | accepted k' ip' =>
    obtain ⟨e, he, hip, hdoom⟩ := h
    have hne : k ≠ k' := by
      rintro rfl
      have hlive := htended.tracked k
      rw [he, hserviced.2.2.2 k rfl] at hlive
      cases hlive
    refine .inr ⟨e, ?_, hip, hdoom⟩
    simp only [RecheckRun.wake, track]
    split_ifs
    · exact he
    · rw [get?_insert_ne _ _ hne]
      exact he
  | gone k' =>
    by_cases hk : k = k'
    · subst hk
      exact .inl (get?_erase_self _ _)
    · obtain ⟨e, he, hip, hdoom⟩ := h
      exact .inr ⟨e, (get?_erase_ne _ hk).trans he, hip, hdoom⟩
  | lookedUp id found =>
    simp only [RecheckRun.wake]
    rcases eq_none_or_eq_some (r.query id) with hnone | ⟨q, hq⟩
    · rw [hnone]
      exact .inr h
    · rw [hq]
      exact h.applyPeerLookup hlater (mem_of_find?_eq_some hq)
        (hrefused (id, found) rfl q hq)

/-- The re-checks of a turn, and the start of their lookups. -/
theorem Doomed.sweep_spawn (h : Doomed interval k ip since r) (htended : Tended interval now r)
    (hspaced : ip ∈ r.rechecker.dueIps now → ip ∉ r.awaiting) :
    Doomed interval k ip since ((r.sweepRechecks now).spawnPeerLookups now) := by
  obtain ⟨entries, gate, heq, hget, hgate⟩ :=
    sweepRechecks_spec htended.background htended.tracked now
  rw [heq]
  obtain ⟨e, he, hip, hdoom⟩ := h
  have hentry := hget k
  rw [he, map_some] at hentry
  by_cases hdue : e.nextAt ≤ now
  · -- the session is re-checked now, and its lookup starts above every floor
    have hnow : e.nextAt = now := le_antisymm hdue (htended.due k e he).1
    have hasked : ip ∈ r.rechecker.dueIps now := mem_dueIps.2 ⟨k, e, he, hdue, hip⟩
    have hby : now ≤ deadline interval since e.failedOnce := by
      rcases hdoom with hby | ⟨hawait, -⟩
      · exact hnow ▸ hby
      · exact absurd hawait (hspaced hasked)
    obtain ⟨q, hq, hqip, hbegun, hfresh⟩ := spawned_of_requested
      (r := { r with gate, rechecker := { r.rechecker with entries }, awaiting := _ })
      (hgate.floored htended.floored) (hgate.asks ip hasked) now
    rw [if_pos hdue] at hentry
    exact ⟨_, hentry, hip, .inr ⟨Finset.mem_union_right _ (mem_toFinset.2 hasked), q, hq, hqip,
      hbegun.trans_le hby, hfresh⟩⟩
  · rw [if_neg hdue] at hentry
    refine ⟨e, hentry, hip, hdoom.imp id ?_⟩
    rintro ⟨hawait, q, hq, hqip, hbegun, hfresh⟩
    refine ⟨Finset.mem_union_left _ hawait, q, mem_append_right _ hq, hqip, hbegun, ?_⟩
    -- no session at the address is due, so its floor stays
    change gate.isStale ip q.stamp = false
    by_contra hstale
    rcases hgate.stale ip q.stamp (by simpa using hstale) with hasked | hstale
    · exact hspaced hasked hawait
    · rw [hfresh] at hstale
      cases hstale

theorem Doomed.turn (h : Doomed interval k ip since r) (htended : Tended interval r.now r)
    (hserviced : Serviced r t) (hspaced : Spaced ip r t) (hrefused : Refused ip since r t) :
    (r.turn t).live.get? k = none ∨ Doomed interval k ip since (r.turn t) := by
  have hwoken := htended.wake hserviced
  rcases h.wake htended hserviced hrefused with hclosed | hdoomed
  · left
    obtain ⟨_, _, heq, -⟩ := sweepRechecks_spec hwoken.background hwoken.tracked t.1
    rw [RecheckRun.turn, heq]
    exact hclosed
  · exact .inr (hdoomed.sweep_spawn hwoken hspaced)

/-- How long the sessions of a refused address can stay open. -/
def revocationBound (interval : Duration) : Duration :=
  3 * peerLookupTimeout + max interval recheckRetryDelay + recheckRetryDelay

theorem deadline_le (interval : Duration) (since : Instant) (failedOnce : Bool) :
    deadline interval since failedOnce + peerLookupTimeout ≤ since + revocationBound interval := by
  have hsum : ∀ s m timeout retry extra : ℕ, extra ≤ timeout + retry →
      s + timeout + m + extra + timeout ≤ s + (3 * timeout + m + retry) := by omega
  refine hsum _ _ _ _ _ ?_
  cases failedOnce
  · exact zero_le _
  · exact le_rfl

theorem Doomed.closes (h : Doomed interval k ip since r) (htended : Tended interval r.now r)
    {turns : List (Instant × Arm K)}
    (halong : Along (fun r t => Serviced r t ∧ Spaced ip r t ∧ Refused ip since r t) RecheckRun.turn
      r turns)
    (hlate : since + revocationBound interval < (run RecheckRun.turn r turns).now) :
    ∃ closing, closing <+: turns ∧
      (run RecheckRun.turn r closing).now ≤ since + revocationBound interval ∧
      (run RecheckRun.turn r closing).live.get? k = none := by
  induction turns generalizing r with
  | nil =>
    obtain ⟨e, -, -, hnow⟩ := h.now_le htended
    exact absurd (hnow.trans (deadline_le _ _ _)) hlate.not_ge
  | cons t turns ih =>
    obtain ⟨⟨hserviced, hspaced, hrefused⟩, hrest⟩ := halong
    rcases h.turn htended hserviced hspaced hrefused with hclosed | hdoomed
    · obtain ⟨e, -, -, hnow⟩ := h.now_le (htended.later hserviced)
      exact ⟨[t], cons_prefix_cons.2 ⟨rfl, nil_prefix⟩, hnow.trans (deadline_le _ _ _),
        hclosed⟩
    · obtain ⟨closing, hprefix, hnow, hclosed⟩ := ih hdoomed (htended.turn hserviced) hrest hlate
      exact ⟨t :: closing, cons_prefix_cons.2 ⟨rfl, hprefix⟩, hnow, hclosed⟩

/-- **A session open when its address is first refused is closed within the bound.** -/
theorem revoked_sessions_close (policy : AccessPolicy) (interval : Duration)
    (before after : List (Instant × Arm K)) (k : K) (ip : IpAddr) (since : Instant)
    (hbefore : Along Serviced turn (start policy interval) before)
    (hopen : (run turn (start policy interval) before).live.get? k = some ip)
    (hsince : (run turn (start policy interval) before).now ≤ since)
    (hafter : Along (fun r t => Serviced r t ∧ Spaced ip r t ∧ Refused ip since r t) turn
      (run turn (start policy interval) before) after)
    (hlate : since + revocationBound interval <
      (run turn (run turn (start policy interval) before) after).now) :
    ∃ closing, closing <+: after ∧
      (run turn (run turn (start policy interval) before) closing).now ≤
        since + revocationBound interval ∧
      (run turn (run turn (start policy interval) before) closing).live.get? k = none := by
  have htended := Along.inv (I := fun r : RecheckRun K => Tended interval r.now r)
    (fun r t h ht => h.turn ht) hbefore (start_tended policy interval)
  refine Doomed.closes ?_ htended hafter hlate
  rw [← htended.tracked k] at hopen
  obtain ⟨e, he, hip⟩ := map_eq_some_iff.1 hopen
  refine ⟨e, he, hip, .inl ((htended.due k e he).2.trans ?_)⟩
  calc _ ≤ since + max interval recheckRetryDelay := Nat.add_le_add_right hsince _
    _ ≤ since + peerLookupTimeout + max interval recheckRetryDelay :=
      Nat.add_le_add_right (Nat.le_add_right _ _) _
    _ ≤ _ := Nat.le_add_right _ _

/-- The owner connects, is looked up and is admitted. -/
def ownerConnects : List (Instant × Arm ℕ) :=
  [(0, .attempt (.v4 1) true), (0, .lookedUp 0 (.ok PeerRun.ownerPeer)), (0, .accepted 0 (.v4 1))]

/-- A minute later the owner is unknown to the tailnet. -/
def ownerRevoked : List (Instant × Arm ℕ) :=
  [(fromSecs 60, .timer), (fromSecs 61, .lookedUp 1 (.error .notFound)), (fromSecs 200, .timer)]

theorem revoked_sessions_close_ownerRevoked :
    ∃ closing, closing <+: ownerRevoked ∧
      (run turn (run turn (start PeerRun.ownerOnly (fromSecs 60)) ownerConnects) closing).now ≤
        0 + revocationBound (fromSecs 60) ∧
      (run turn (run turn (start PeerRun.ownerOnly (fromSecs 60)) ownerConnects) closing).live.get?
        0 = none :=
  revoked_sessions_close PeerRun.ownerOnly (fromSecs 60) ownerConnects ownerRevoked 0 (.v4 1) 0
    (by decide +kernel) (by decide +kernel) (by decide +kernel) (by decide +kernel)
    (by decide +kernel)

/-! ### A session that is never closed -/

/-- After `n + 3` seconds with a re-check every second and lookups that take three: the last three
lookups are outstanding, and the floor is above all but the newest. -/
def overdue (n : ℕ) : RecheckRun ℕ where
  gate :=
    { policy := PeerRun.ownerOnly
      source := .background
      inFlight := {.v4 1}
      clock := 2 * n + 7
      recheckFloor := Dict.empty.insert (.v4 1) (2 * n + 6, fromSecs (n + 3)) }
  rechecker :=
    { interval := fromSecs 1
      entries := Dict.empty.insert 0 ⟨.v4 1, fromSecs (n + 4), false⟩ }
  live := Dict.empty.insert 0 (.v4 1)
  queries :=
    [⟨n + 3, .v4 1, 2 * n + 7, fromSecs (n + 3)⟩, ⟨n + 2, .v4 1, 2 * n + 5, fromSecs (n + 2)⟩,
      ⟨n + 1, .v4 1, 2 * n + 3, fromSecs (n + 1)⟩]
  asked := n + 4
  now := fromSecs (n + 3)
  awaiting := {.v4 1}

/-- The oldest lookup is answered at its timeout: the peer is unknown. -/
def lateAnswer (n : ℕ) : Instant × Arm ℕ := (fromSecs (n + 4), .lookedUp (n + 1) (.error .notFound))

/-- The state once the late answer was dropped as stale. -/
def answered (n : ℕ) : RecheckRun ℕ :=
  { overdue n with
    queries := [⟨n + 3, .v4 1, 2 * n + 7, fromSecs (n + 3)⟩,
      ⟨n + 2, .v4 1, 2 * n + 5, fromSecs (n + 2)⟩] }

theorem overdue_wake (n : ℕ) :
    (overdue n).wake (lateAnswer n).1 (lateAnswer n).2 = answered n := by
  simp [overdue, answered, lateAnswer, wake, query, applyPeerLookup, isStale]

/-- The sweep when the only session is due. -/
theorem sweepRechecks_single {r : RecheckRun ℕ} {ip : IpAddr} {now : Instant} {g : PeerGate}
    (hentries : r.rechecker.entries = Dict.empty.insert 0 ⟨ip, now, false⟩)
    (hlive : r.live = Dict.empty.insert 0 ip)
    (hrecheck : r.gate.recheck ip now (.error .notFound) = (g, .pending)) :
    r.sweepRechecks now =
      { r with
        gate := g
        rechecker :=
          { r.rechecker with
            entries := Dict.empty.insert 0 ⟨ip, now + r.rechecker.interval, false⟩ }
        awaiting := r.awaiting ∪ {ip} } := by
  obtain ⟨gate, ⟨interval, entries⟩, live, queries, asked, time, awaiting⟩ := r
  subst hentries hlive
  have hlist : toList (empty.insert 0 ⟨ip, now, false⟩ : Dict ℕ RecheckEntry) =
      [(0, ⟨ip, now, false⟩)] := rfl
  have hsync : sync ⟨interval, empty.insert 0 ⟨ip, now, false⟩⟩
      (empty.insert 0 ip : Dict ℕ IpAddr) now =
        ⟨interval, empty.insert 0 ⟨ip, now, false⟩⟩ := by
    have hlive : toList (empty.insert 0 ip : Dict ℕ IpAddr) = [(0, ip)] := rfl
    have hretain : (empty.insert 0 ⟨ip, now, false⟩ : Dict ℕ RecheckEntry).retain
        (fun k _ => (empty.insert 0 ip : Dict ℕ IpAddr).contains k) =
          empty.insert 0 ⟨ip, now, false⟩ := rfl
    simp [sync, hlive, hretain, track]
  have hget : (empty.insert 0 ⟨ip, now, false⟩ : Dict ℕ RecheckEntry).get? 0 =
      some ⟨ip, now, false⟩ := get?_insert_self _ _ _
  simp only [sweepRechecks, nextDue, runDue,
    dueKeys, dueIps, hsync, hlist]
  simp [runDueOne, hget, hrecheck, setNext, Dict.modify]
  rfl

/-- The gate after the re-check of the next second. -/
def overdueGate (n : ℕ) : PeerGate :=
  { (overdue n).gate with
    requested := [.v4 1]
    clock := 2 * n + 8
    recheckFloor := Dict.empty.insert (.v4 1) (2 * n + 8, fromSecs (n + 4)) }

theorem insert_retain_insert {ip : IpAddr} (f f' : ℕ × Instant) (p : IpAddr → ℕ × Instant → Bool) :
    ((Dict.empty.insert ip f).retain p).insert ip f' =
      (Dict.empty.insert ip f' : Dict IpAddr (ℕ × Instant)) := by
  apply AList.ext
  cases hp : p ip f <;> simp [Dict.retain, Dict.insert, Dict.empty, hp]

theorem overdue_recheck (n : ℕ) (found : PeerLookup) :
    (overdue n).gate.recheck (.v4 1) (fromSecs (n + 4)) found = (overdueGate n, .pending) := by
  rcases (overdue n).gate.recheck_cases (.v4 1) (fromSecs (n + 4)) found with
    ⟨h, -⟩ | ⟨h, -⟩ | ⟨-, heq⟩
  · cases h
  · cases h
  rw [heq]
  simp only [invalidate, raiseFloor, request, overdue, overdueGate,
    insert_retain_insert, not_mem_nil, if_false]
  rfl

/-- One more second: an answer is dropped as stale, and the next re-check makes the others stale. -/
theorem overdue_turn (n : ℕ) : (overdue n).turn (lateAnswer n) = overdue (n + 1) := by
  have hsweep : (answered n).sweepRechecks (fromSecs (n + 4)) = _ :=
    sweepRechecks_single rfl rfl (overdue_recheck n _)
  have hnext : fromSecs (n + 4) + fromSecs 1 = fromSecs (n + 5) := (add_mul (n + 4) 1 _).symm
  rw [turn, overdue_wake]
  simp only [lateAnswer, hsweep]
  simp [spawnPeerLookups, takeStampedRequests, stamped, overdue, answered,
    overdueGate, hnext, mul_add]

theorem overdue_serviced (n : ℕ) :
    Serviced (overdue n) (lateAnswer n) ∧ Refused (.v4 1) 0 (overdue n) (lateAnswer n) ∧
      (overdue n).live.get? 0 = some (.v4 1) := by
  have hsecs : ∀ {a b : ℕ}, a ≤ b → fromSecs a ≤ fromSecs b := by
    intro a b h
    exact mul_le_mul_right _ h
  have hwait : ∀ a, fromSecs a + peerLookupTimeout = fromSecs (a + 3) := by
    intro a
    exact (add_mul a 3 _).symm
  refine ⟨⟨hsecs (le_succ (n + 3)), ?_, ?_, nofun⟩, ?_, rfl⟩
  · rintro due hdue
    obtain rfl := some.inj hdue
    exact le_rfl
  · intro q hq
    simp only [overdue, mem_cons, not_mem_nil, or_false] at hq
    rw [lateAnswer]
    rcases hq with rfl | rfl | rfl
    · rw [hwait]; exact hsecs (by omega)
    · rw [hwait]; exact hsecs (by omega)
    · rw [hwait]
  · rintro a ha q - - -
    obtain rfl := some.inj ha
    rfl

/-- The answers of `m` more seconds. -/
def lateAnswers : ℕ → ℕ → List (Instant × Arm ℕ)
  | _, 0 => []
  | n, m + 1 => lateAnswer n :: lateAnswers (n + 1) m

theorem overdue_run (n m : ℕ) :
    run turn (overdue n) (lateAnswers n m) = overdue (n + m) ∧
      Along (fun r t => Serviced r t ∧ Refused (.v4 1) 0 r t ∧ r.live.get? 0 = some (.v4 1)) turn
        (overdue n) (lateAnswers n m) := by
  induction m generalizing n with
  | zero => exact ⟨rfl, trivial⟩
  | succ m ih =>
    obtain ⟨hrun, halong⟩ := ih (n + 1)
    rw [lateAnswers, run_cons, overdue_turn]
    refine ⟨by rw [hrun, add_right_comm, add_assoc], overdue_serviced n, ?_⟩
    rw [overdue_turn]
    exact halong

/-- The first three seconds: nothing is answered yet. -/
def firstSeconds : List (Instant × Arm ℕ) :=
  [(fromSecs 1, .timer), (fromSecs 2, .timer), (fromSecs 3, .timer)]

/-- The session of `ownerConnects` just after it was opened, with a re-check every second. -/
def justOpened : RecheckRun ℕ := run turn (start PeerRun.ownerOnly (fromSecs 1)) ownerConnects

/-- The session outlives any bound while every lookup is refused. -/
theorem refused_session_outlives (bound : Duration) : ∃ after : List (Instant × Arm ℕ),
    Along (fun r t => Serviced r t ∧ Refused (.v4 1) 0 r t ∧ r.live.get? 0 = some (.v4 1)) turn
        justOpened after ∧
      bound < (run turn justOpened after).now ∧
      (run turn justOpened after).live.get? 0 = some (.v4 1) := by
  have hfirst : run turn justOpened firstSeconds = overdue 0 := rfl
  obtain ⟨hrun, halong⟩ := overdue_run 0 bound
  refine ⟨firstSeconds ++ lateAnswers 0 bound, ?_, ?_, ?_⟩
  · refine along_append.2 ⟨by decide +kernel, ?_⟩
    exact halong
  · rw [run_append, hfirst, hrun]
    have hlate : ∀ b : ℕ, b < (0 + b + 3) * 1000000000 := by omega
    exact hlate bound
  · rw [run_append, hfirst, hrun]
    rfl

/-- **With a re-check every second and lookups that take three, there is no time by which a session
refused since it was opened is closed.** -/
theorem revoked_session_stays :
    Along Serviced turn (start PeerRun.ownerOnly (fromSecs 1)) ownerConnects ∧
      ¬ ∃ bound : Duration, ∀ after : List (Instant × Arm ℕ),
        Along (fun r t => Serviced r t ∧ Refused (.v4 1) 0 r t ∧ r.live.get? 0 = some (.v4 1)) turn
            justOpened after →
          bound < (run turn justOpened after).now →
            (run turn justOpened after).live.get? 0 ≠ some (.v4 1) := by
  refine ⟨by decide +kernel, ?_⟩
  rintro ⟨bound, hclosed⟩
  obtain ⟨after, halong, hlate, hopen⟩ := refused_session_outlives bound
  exact hclosed after halong hlate hopen

end RecheckRun

end Ghostframe.Transport
