import Ghostframe.Lib.Run
import Ghostframe.Transport.LossPath

/-!
# No pass is left without a repair

A pass stays cached until it is acknowledged, so something has to bring it back if
its newest transmission is lost: the ledger while that transmission is on the books,
a waiting NACK repair, a request of the loss path that judged it, or a deferred
entry. `HasHandle` says that one of these is there.

* `Books`, `Owned`, `Handles`: the invariant, in three parts; the last one allows
  exceptions, since a step takes a handle away before it puts the next one down;
* `Sound.requestAll`: a turn of requests gives every pass it names its handle back,
  as long as no older request stands in the way.
-/

namespace Ghostframe.Transport

open ReliableTileEmitter Content List ReliableTileEmitter RetransmitCache

/-! ### Handles -/

variable (e : ReliableTileEmitter)

/-- A queue of the emitter will bring the transmission `w` of the pass back. -/
def QueueHandle (key : EmitKey) (w : WireSeq) : Prop :=
  key ∈ e.pendingNacks ∨ (∃ r ∈ e.pendingLoss, r.1 = .tile key ∧ r.2.2 = w) ∨
    ∃ d ∈ e.deferred, d.key = .tile key ∧ d.judgedWs = w

namespace ReliablePath

/-- The pass with newest transmission `w` has a live repair handle: `w` is not recorded yet, or
outstanding, or one of the emitter's queues holds the pass. -/
def HasHandle (p : ReliablePath) (key : EmitKey) (w : WireSeq) : Prop :=
  (∃ d ∈ p.emitter.transmissions, d.wireSeq = w) ∨ p.ledger.Outstanding w ∨
    QueueHandle p.emitter key w

/-- Every cached pass has a live repair handle. -/
def NoOrphan (p : ReliablePath) : Prop :=
  ∀ key c, p.emitter.cache.get key = some c → p.HasHandle key c.latestWs

end ReliablePath

/-! ### The invariant -/

/-- The number has been handed out. -/
def Used (ws : WireSeq) : Prop := ws.toNat < e.alloc.next.toNat

/-- At least `n` more numbers can be handed out before they wrap. -/
def Room (n : ℕ) : Prop := e.alloc.next.toNat + n < 2 ^ 32

/-- What holds of the two queues of waiting repairs. -/
structure QueuedOnce (e : ReliableTileEmitter) : Prop where
  nackSet : ∀ k, k ∈ e.pendingNackSet ↔ k ∈ e.pendingNacks
  nackNodup : e.pendingNacks.Nodup
  lossSet : ∀ c, c ∈ e.pendingLossSet ↔ c ∈ e.pendingLoss.map Prod.fst
  lossNodup : (e.pendingLoss.map Prod.fst).Nodup

/-- The emitter's own bookkeeping. -/
structure Books (e : ReliableTileEmitter) : Prop extends QueuedOnce e where
  long : ∀ k c, e.cache.get k = some c → 12 ≤ c.datagram.length
  cachedUsed : ∀ k c, e.cache.get k = some c → Used e c.latestWs
  deferredUsed : ∀ d ∈ e.deferred, ∀ k, d.key = .tile k → Used e d.judgedWs
  sentUsed : ∀ d ∈ e.transmissions, Used e d.wireSeq
  -- a deferred entry for the newest transmission excludes a request for an older one
  moot : ∀ k c, e.cache.get k = some c → ∀ d ∈ e.deferred, d.key = .tile k →
    d.judgedWs = c.latestWs → ∀ r ∈ e.pendingLoss, r.1 = .tile k → r.2.2 = c.latestWs

/-- A number names one transmission: what is recorded or noted under the newest number of a pass
is that pass. -/
structure Owned (p : ReliablePath) : Prop where
  recordedUsed : ∀ ws r, p.ledger.records.get? ws = some r → Used p.emitter ws
  sent : ∀ k c, p.emitter.cache.get k = some c → ∀ d ∈ p.emitter.transmissions,
    d.wireSeq = c.latestWs → d.content = .tile k
  recorded : ∀ k c, p.emitter.cache.get k = some c → ∀ r,
    p.ledger.records.get? c.latestWs = some r → r.tx.content = .tile k

/-- Every cached pass has a handle, except those that `exc` names. -/
def Handles (exc : EmitKey → WireSeq → Prop) (p : ReliablePath) : Prop :=
  ∀ k c, p.emitter.cache.get k = some c → exc k c.latestWs ∨ p.HasHandle k c.latestWs

/-- The whole invariant. -/
structure Sound (exc : EmitKey → WireSeq → Prop) (p : ReliablePath) : Prop where
  books : Books p.emitter
  owned : Owned p
  handles : Handles exc p

/-- No exception. -/
def noExc : EmitKey → WireSeq → Prop := fun _ _ => False

variable {exc exc' : EmitKey → WireSeq → Prop} {p : ReliablePath} {e e' : ReliableTileEmitter}

/-- The exceptions may be restated for the passes that are cached. -/
theorem Sound.restate (h : Sound exc p)
    (himp : ∀ k c, p.emitter.cache.get k = some c → exc k c.latestWs →
      exc' k c.latestWs ∨ p.HasHandle k c.latestWs) : Sound exc' p where
  books := h.books
  owned := h.owned
  handles := by
    intro k c hk
    rcases h.handles k c hk with hexc | hhandle
    · exact himp k c hk hexc
    · exact .inr hhandle

theorem Sound.discharge (h : Sound exc p)
    (hno : ∀ k c, p.emitter.cache.get k = some c → ¬exc k c.latestWs) : Sound noExc p :=
  h.restate fun k c hk hexc => absurd hexc (hno k c hk)

variable {cfg : EmitterConfig} {l : TransmissionLedger} {key : EmitKey} (now : Instant)
  {c : CacheEntry}

theorem sound_new (capacity : ℕ) : Sound noExc (.new now capacity) where
  books := by
    refine ⟨⟨?_, nodup_nil, ?_, nodup_nil⟩, ?_, ?_, ?_, ?_, ?_⟩
    · intro k
      simp [ReliablePath.new, new]
    · intro c
      simp [ReliablePath.new, new]
    · intro k c hk
      cases hk
    · intro k c hk
      cases hk
    · nofun
    · nofun
    · intro k c hk
      cases hk
  owned := by
    refine ⟨?_, ?_, ?_⟩
    · intro ws r hr
      cases hr
    · intro k c hk
      cases hk
    · intro k c hk
      cases hk
  handles := by
    intro k c hk
    cases hk

/-! ### The queues of waiting repairs -/

theorem QueuedOnce.congr (h : QueuedOnce e) (hnacks : e'.pendingNacks = e.pendingNacks)
    (hnackSet : e'.pendingNackSet = e.pendingNackSet) (hloss : e'.pendingLoss = e.pendingLoss)
    (hlossSet : e'.pendingLossSet = e.pendingLossSet) : QueuedOnce e' := by
  refine ⟨?_, ?_, ?_, ?_⟩
  · rw [hnacks, hnackSet]
    exact h.nackSet
  · rw [hnacks]
    exact h.nackNodup
  · rw [hloss, hlossSet]
    exact h.lossSet
  · rw [hloss]
    exact h.lossNodup

/-- The head of a queue without repetitions leaves the set of the queue as well. -/
theorem mem_erase_head {α : Type*} [DecidableEq α] {s : Finset α} {a : α} {rest : List α}
    (hset : ∀ x, x ∈ s ↔ x ∈ a :: rest) (hnot : a ∉ rest) (x : α) : x ∈ s.erase a ↔ x ∈ rest := by
  rw [Finset.mem_erase, hset, mem_cons]
  constructor
  · rintro ⟨hne, rfl | hx⟩
    · exact absurd rfl hne
    · exact hx
  · intro hx
    refine ⟨?_, .inr hx⟩
    rintro rfl
    exact hnot hx

theorem QueuedOnce.popNack {rest : List EmitKey} (h : QueuedOnce e)
    (hqueue : e.pendingNacks = key :: rest) : QueuedOnce (e.popNack key rest) := by
  obtain ⟨hset, hnodup, hlossSet, hlossNodup⟩ := h
  rw [hqueue] at hset hnodup
  obtain ⟨hnot, hrest⟩ := nodup_cons.1 hnodup
  exact ⟨mem_erase_head hset hnot, hrest, hlossSet, hlossNodup⟩

variable {rest : List (Content × RetxCause × WireSeq)} {content : Content}

theorem QueuedOnce.popLoss {r : RetxCause × WireSeq}
    (h : QueuedOnce e)
    (hqueue : e.pendingLoss = (content, r) :: rest) : QueuedOnce (e.popLoss content rest) := by
  obtain ⟨hnackSet, hnackNodup, hset, hnodup⟩ := h
  rw [hqueue, map_cons] at hset hnodup
  obtain ⟨hnot, hrest⟩ := nodup_cons.1 hnodup
  exact ⟨hnackSet, hnackNodup, mem_erase_head hset hnot, hrest⟩

theorem QueuedOnce.queueNack (h : QueuedOnce e) (hnew : key ∉ e.pendingNackSet) :
    QueuedOnce (e.queueNack key) := by
  refine ⟨fun k => ?_, ?_, h.lossSet, h.lossNodup⟩
  · show k ∈ insert key e.pendingNackSet ↔ k ∈ e.pendingNacks ++ [key]
    rw [Finset.mem_insert, h.nackSet, mem_append, mem_singleton, or_comm]
  · rw [h.nackSet] at hnew
    exact h.nackNodup.append (nodup_singleton _) (by simpa using hnew)

/-- A request joins the loss queue only if nothing waits for its content. -/
theorem QueuedOnce.queueLoss (h : QueuedOnce e)
    (hwait : e.waiting content = false) (cause : RetxCause) (ws : WireSeq) :
    QueuedOnce (e.queueLoss content cause ws) := by
  have hnew : content ∉ e.pendingLoss.map Prod.fst := by
    rw [← h.lossSet]
    intro hmem
    simp [waiting, hmem] at hwait
  refine ⟨h.nackSet, h.nackNodup, fun c => ?_, ?_⟩
  · show c ∈ insert content e.pendingLossSet ↔
      c ∈ (e.pendingLoss ++ [(content, cause, ws)]).map Prod.fst
    rw [Finset.mem_insert, h.lossSet, map_append, mem_append, or_comm]
    simp
  · show ((e.pendingLoss ++ [(content, cause, ws)]).map Prod.fst).Nodup
    rw [map_append]
    exact h.lossNodup.append (nodup_singleton _) (by simpa using hnew)

/-! ### Taking a number -/

variable {n : ℕ}

theorem Room.peek_eq (h : Room e (n + 1)) : e.alloc.peek = e.alloc.next := by
  unfold Room at h
  rw [WireSeqAllocator.peek, if_neg]
  intro hmax
  have : (Protocol.noAck).toNat = 2 ^ 32 - 1 := rfl
  rw [hmax] at h
  omega

theorem Room.advance_toNat (h : Room e (n + 1)) :
    e.alloc.advance.next.toNat = e.alloc.next.toNat + 1 := by
  have hpeek := h.peek_eq
  unfold Room at h
  rw [WireSeqAllocator.advance, hpeek, UInt32.toNat_add]
  exact Nat.mod_eq_of_lt (by simp only [UInt32.toNat_one]; omega)

/-- `e'` has taken the next number and noted one transmission under it; the queues are as they
were. -/
structure TakesNumber (e e' : ReliableTileEmitter) (content : Content) : Prop where
  alloc : e'.alloc = e.alloc.advance
  sent : ∃ d, d.wireSeq = e.alloc.peek ∧ d.content = content ∧
    e'.transmissions = e.transmissions ++ [d]
  nacks : e'.pendingNacks = e.pendingNacks
  nackSet : e'.pendingNackSet = e.pendingNackSet
  loss : e'.pendingLoss = e.pendingLoss
  lossSet : e'.pendingLossSet = e.pendingLossSet
  deferred : e'.deferred = e.deferred

namespace TakesNumber

variable {content : Content} {n : ℕ}

theorem used (h : TakesNumber e e' content) (hroom : Room e (n + 1)) {ws : WireSeq}
    (hws : Used e ws) : Used e' ws := by
  unfold Used at hws ⊢
  rw [h.alloc, hroom.advance_toNat]
  omega

theorem used_peek (h : TakesNumber e e' content) (hroom : Room e (n + 1)) :
    Used e' e.alloc.peek := by
  unfold Used
  rw [h.alloc, hroom.advance_toNat, hroom.peek_eq]
  omega

theorem room (h : TakesNumber e e' content) (hroom : Room e (n + 1)) : Room e' n := by
  have hnext := hroom.advance_toNat
  unfold Room at hroom ⊢
  rw [h.alloc, hnext]
  omega

variable {w : WireSeq}

theorem queueHandle (h : TakesNumber e e' content) {key : EmitKey} :
    QueueHandle e' key w ↔ QueueHandle e key w := by
  unfold QueueHandle
  rw [h.nacks, h.loss, h.deferred]

theorem mem_sent (h : TakesNumber e e' content) {d : EmittedDatagram}
    (hd : d ∈ e'.transmissions) :
    d ∈ e.transmissions ∨ (d.wireSeq = e.alloc.peek ∧ d.content = content) := by
  obtain ⟨d', hws, hcontent, hsent⟩ := h.sent
  rw [hsent, mem_append, mem_singleton] at hd
  rcases hd with hd | rfl
  · exact .inl hd
  · exact .inr ⟨hws, hcontent⟩

theorem sent_peek (h : TakesNumber e e' content) :
    ∃ d ∈ e'.transmissions, d.wireSeq = e.alloc.peek := by
  obtain ⟨d, hws, -, hsent⟩ := h.sent
  exact ⟨d, by simp [hsent], hws⟩

theorem sent_mono (h : TakesNumber e e' content) (hw : ∃ d ∈ e.transmissions, d.wireSeq = w) :
    ∃ d ∈ e'.transmissions, d.wireSeq = w := by
  obtain ⟨d, hd, hdw⟩ := hw
  obtain ⟨d', -, -, hsent⟩ := h.sent
  exact ⟨d, by simp [hsent, hd], hdw⟩

theorem hasHandle (h : TakesNumber e e' content) {l : TransmissionLedger} {key : EmitKey}
    (hh : ReliablePath.HasHandle ⟨e, l⟩ key w) : ReliablePath.HasHandle ⟨e', l⟩ key w := by
  rcases hh with hh | hh | hh
  · exact .inl (h.sent_mono hh)
  · exact .inr (.inl hh)
  · exact .inr (.inr (h.queueHandle.2 hh))

end TakesNumber

theorem Used.ne_peek {ws : WireSeq} (h : Used e ws) (hroom : Room e (n + 1)) :
    ws ≠ e.alloc.peek := by
  rintro rfl
  unfold Used at h
  rw [hroom.peek_eq] at h
  exact lt_irrefl _ h

/-- `content` goes on the wire under a fresh number; if it is a tile pass, that becomes the newest
transmission of its entry. -/
structure Sends (e e' : ReliableTileEmitter) (content : Content) : Prop
    extends TakesNumber e e' content where
  get : ∀ k c, e'.cache.get k = some c →
    (content = .tile k ∧ c.latestWs = e.alloc.peek ∧ 12 ≤ c.datagram.length) ∨
      (content ≠ .tile k ∧ e.cache.get k = some c)

theorem Books.sends (h : Books e) (hs : Sends e e' content)
    (hroom : Room e (n + 1)) : Books e' where
  toQueuedOnce := h.toQueuedOnce.congr hs.nacks hs.nackSet hs.loss hs.lossSet
  long := by
    intro k c hk
    rcases hs.get k c hk with ⟨-, -, hlong⟩ | ⟨-, hk⟩
    · exact hlong
    · exact h.long k c hk
  cachedUsed := by
    intro k c hk
    rcases hs.get k c hk with ⟨-, hnewest, -⟩ | ⟨-, hk⟩
    · rw [hnewest]
      exact hs.used_peek hroom
    · exact hs.used hroom (h.cachedUsed k c hk)
  deferredUsed := by
    rw [hs.deferred]
    exact fun d hd k hkey => hs.used hroom (h.deferredUsed d hd k hkey)
  sentUsed := by
    intro d hd
    rcases hs.mem_sent hd with hd | ⟨hws, -⟩
    · exact hs.used hroom (h.sentUsed d hd)
    · rw [hws]
      exact hs.used_peek hroom
  moot := by
    rw [hs.deferred, hs.loss]
    intro k c hk d hd hkey hjudged
    rcases hs.get k c hk with ⟨-, hnewest, -⟩ | ⟨-, hk⟩
    · -- the fresh number has not been judged
      rw [hnewest] at hjudged
      exact absurd hjudged ((h.deferredUsed d hd k hkey).ne_peek hroom)
    · exact h.moot k c hk d hd hkey hjudged

theorem Owned.sends (hb : Books e) (h : Owned ⟨e, l⟩)
    (hs : Sends e e' content) (hroom : Room e (n + 1)) : Owned ⟨e', l⟩ where
  recordedUsed := fun ws r hr => hs.used hroom (h.recordedUsed ws r hr)
  sent := by
    intro k c hk d hd hws
    rcases hs.get k c hk with ⟨htile, hnewest, -⟩ | ⟨-, hk⟩
    · rcases hs.mem_sent hd with hd | ⟨-, hcontent⟩
      · rw [hnewest] at hws
        exact absurd hws ((hb.sentUsed d hd).ne_peek hroom)
      · exact hcontent.trans htile
    · rcases hs.mem_sent hd with hd | ⟨hpeek, -⟩
      · exact h.sent k c hk d hd hws
      · exact absurd (hws.symm.trans hpeek) ((hb.cachedUsed k c hk).ne_peek hroom)
  recorded := by
    intro k c hk r hr
    rcases hs.get k c hk with ⟨-, hnewest, -⟩ | ⟨-, hk⟩
    · rw [hnewest] at hr
      exact absurd rfl ((h.recordedUsed _ r hr).ne_peek hroom)
    · exact h.recorded k c hk r hr

/-- Sending a pass gives it a handle: the transmission that is not recorded yet. -/
theorem Sound.sends (h : Sound exc ⟨e, l⟩) (hs : Sends e e' content)
    (hroom : Room e (n + 1)) :
    Sound (fun k w => content ≠ .tile k ∧ exc k w) ⟨e', l⟩ where
  books := h.books.sends hs hroom
  owned := h.owned.sends h.books hs hroom
  handles := by
    intro k c hk
    rcases hs.get k c hk with ⟨-, hnewest, -⟩ | ⟨hother, hk⟩
    · rw [hnewest]
      exact .inr (.inl hs.sent_peek)
    · rcases h.handles k c hk with hexc | hh
      · exact .inl ⟨hother, hexc⟩
      · exact .inr (hs.hasHandle hh)

/-! ### The emitter's sends -/

/-- A tile send: the entry is written, the group fed or not, and the datagram put on the wire. -/
theorem sends_of_put {e1 e2 : ReliableTileEmitter}
    (hget : ∀ k, e1.cache.get k = if k = key then some c else e.cache.get k)
    (hnewest : c.latestWs = e.alloc.peek) (hlong : 12 ≤ c.datagram.length)
    (hsame : { e with alloc := e.alloc.advance, cache := e1.cache } = e1)
    (hfed : e2 = e1 ∨ ∃ ws bytes, e2 = e1.feedGroup ws bytes) (d : EmittedDatagram)
    (hws : d.wireSeq = e.alloc.peek) (hcontent : d.content = .tile key) (bytes : Bytes)
    (cls : WireClass) : Sends e (e2.putOnWire d bytes cls) (.tile key) := by
  have hcache : e2.cache = e1.cache := by
    rcases hfed with rfl | ⟨ws, b, rfl⟩
    · rfl
    · simp
  have htakes : TakesNumber e (e2.putOnWire d bytes cls) (.tile key) := by
    rw [← hsame] at hfed
    rcases hfed with rfl | ⟨ws, b, rfl⟩
    · exact ⟨rfl, ⟨d, hws, hcontent, rfl⟩, rfl, rfl, rfl, rfl, rfl⟩
    · refine ⟨?_, ⟨d, hws, hcontent, ?_⟩, ?_, ?_, ?_, ?_, ?_⟩ <;> simp [putOnWire]
  refine ⟨htakes, ?_⟩
  intro k c' hk
  replace hk : e2.cache.get k = some c' := hk
  rw [hcache, hget] at hk
  split_ifs at hk with hkey
  · cases hk
    exact .inl ⟨by rw [hkey], hnewest, hlong⟩
  · refine .inr ⟨?_, hk⟩
    rintro ⟨⟩
    exact hkey rfl

theorem submitOneAs_sends (e : ReliableTileEmitter) (key : EmitKey) (source : Bytes)
    (queuedAt : Instant) (probe : Option ProbeTag) (now : Instant) (schedulerRetry : Bool)
    (hlong : 12 ≤ source.length) :
    Sends e (e.submitOneAs key source queuedAt probe now schedulerRetry) (.tile key) := by
  unfold submitOneAs
  refine sends_of_put (fun k => get_insert _ _ _ _) rfl ?_ rfl
    (.inr ⟨_, _, rfl⟩) _ rfl rfl _ _
  exact (length_stampTile _ _ _).symm ▸ hlong

theorem feedRetx_eq (e : ReliableTileEmitter) (ws : WireSeq) (bytes : Bytes) :
    e.feedRetx ws bytes = e ∨ ∃ ws' bytes', e.feedRetx ws bytes = e.feedGroup ws' bytes' := by
  unfold feedRetx
  split_ifs
  · exact .inr ⟨ws, bytes, rfl⟩
  · exact .inl rfl

theorem resend_sends (e : ReliableTileEmitter) (key : EmitKey) (c : CacheEntry)
    (now : Instant) (hlong : 12 ≤ c.datagram.length) :
    Sends e (e.nackResend key c now) (.tile key) ∧
        Sends e (e.lossResend key c now) (.tile key) := by
  have hseq : e.retxSeq c.datagram = e.alloc.peek := if_pos hlong
  have halloc : e.retxAlloc c.datagram = e.alloc.advance := if_pos hlong
  unfold nackResend lossResend
  simp only [hseq, halloc]
  constructor
  · exact sends_of_put (c := c.resent e.alloc.peek now) (fun k => get_set _ _ _ _) rfl hlong rfl
      (feedRetx_eq _ _ _) _ rfl rfl _ _
  · exact sends_of_put (c := c.lossResent e.alloc.peek now) (fun k => get_set _ _ _ _) rfl hlong rfl
      (feedRetx_eq _ _ _) _ rfl rfl _ _

theorem submitH264Fragment_sends (e : ReliableTileEmitter) (frag : H264Submit) (now : Instant) :
    Sends e (e.submitH264Fragment frag now) (.h264Frag frag.frameSeq frag.fragIdx) := by
  refine ⟨⟨rfl, ⟨_, rfl, rfl, rfl⟩, rfl, rfl, rfl, rfl, rfl⟩, ?_⟩
  intro k c hk
  exact .inr ⟨nofun, hk⟩

theorem fragResend_sends (e : ReliableTileEmitter) (frameSeq : UInt32) (fragIdx : UInt16)
    (c : CacheEntry) (now : Instant) :
    Sends e (e.fragResend frameSeq fragIdx c now) (.h264Frag frameSeq fragIdx) := by
  refine ⟨⟨rfl, ⟨_, rfl, rfl, rfl⟩, rfl, rfl, rfl, rfl, rfl⟩, ?_⟩
  intro k c' hk
  exact .inr ⟨nofun, hk⟩

/-! ### Queues that only lose or gain an entry -/

/-- Nothing was sent and no pass was cached; passes may have left the cache. -/
structure Idle (e e' : ReliableTileEmitter) : Prop where
  get : ∀ k c, e'.cache.get k = some c → e.cache.get k = some c
  alloc : e'.alloc = e.alloc
  transmissions : e'.transmissions = e.transmissions

theorem Idle.used (h : Idle e e') {ws : WireSeq} (hws : Used e ws) : Used e' ws := by
  unfold Used at hws ⊢
  rwa [h.alloc]

theorem Owned.idle (h : Owned ⟨e, l⟩) (hi : Idle e e') :
    Owned ⟨e', l⟩ where
  recordedUsed := fun ws r hr => hi.used (h.recordedUsed ws r hr)
  sent := by
    intro k c hk
    rw [hi.transmissions]
    exact h.sent k c (hi.get k c hk)
  recorded := fun k c hk => h.recorded k c (hi.get k c hk)

/-- Handles survive if the queues keep them, up to new exceptions. -/
theorem Handles.idle (h : Handles exc ⟨e, l⟩) (hi : Idle e e')
    (hqueue : ∀ k c, e.cache.get k = some c → QueueHandle e k c.latestWs →
      exc' k c.latestWs ∨ QueueHandle e' k c.latestWs) (hexc : ∀ k w, exc k w → exc' k w) :
    Handles exc' ⟨e', l⟩ := by
  intro k c hk
  have hk0 := hi.get k c hk
  rcases h k c hk0 with hx | hsent | hout | hq
  · exact .inl (hexc _ _ hx)
  · refine .inr (.inl ?_)
    rw [hi.transmissions]
    exact hsent
  · exact .inr (.inr (.inl hout))
  · rcases hqueue k c hk0 hq with hx | hq
    · exact .inl hx
    · exact .inr (.inr (.inr hq))

/-- The queues are the same and only the cache may have shrunk. -/
theorem Sound.shrink (h : Sound exc ⟨e, l⟩) (hi : Idle e e')
    (hnacks : e'.pendingNacks = e.pendingNacks) (hnackSet : e'.pendingNackSet = e.pendingNackSet)
    (hloss : e'.pendingLoss = e.pendingLoss) (hlossSet : e'.pendingLossSet = e.pendingLossSet)
    (hdef : e'.deferred = e.deferred) : Sound exc ⟨e', l⟩ where
  books :=
    { toQueuedOnce := h.books.toQueuedOnce.congr hnacks hnackSet hloss hlossSet
      long := fun k c hk => h.books.long k c (hi.get k c hk)
      cachedUsed := fun k c hk => hi.used (h.books.cachedUsed k c (hi.get k c hk))
      deferredUsed := by
        rw [hdef]
        exact fun d hd k hkey => hi.used (h.books.deferredUsed d hd k hkey)
      sentUsed := by
        rw [hi.transmissions]
        exact fun d hd => hi.used (h.books.sentUsed d hd)
      moot := by
        rw [hdef, hloss]
        exact fun k c hk => h.books.moot k c (hi.get k c hk) }
  owned := h.owned.idle hi
  handles := by
    refine h.handles.idle hi (fun k c _ hq => .inr ?_) fun _ _ hx => hx
    unfold QueueHandle at hq ⊢
    rwa [hnacks, hloss, hdef]

/-- The head of the NACK queue goes: its pass may be without a handle now. -/
theorem Sound.popNack {rest : List EmitKey} (h : Sound exc ⟨e, l⟩)
    (hqueue : e.pendingNacks = key :: rest) :
    Sound (fun k w => k = key ∨ exc k w) ⟨e.popNack key rest, l⟩ where
  books := { h.books with toQueuedOnce := h.books.toQueuedOnce.popNack hqueue }
  owned := h.owned.idle ⟨fun _ _ hk => hk, rfl, rfl⟩
  handles := by
    refine h.handles.idle ⟨fun _ _ hk => hk, rfl, rfl⟩ ?_ fun _ _ hx => .inr hx
    intro k c _ hq
    rcases hq with hnack | hloss | hdef
    · rw [hqueue, mem_cons] at hnack
      rcases hnack with rfl | hnack
      · exact .inl (.inl rfl)
      · exact .inr (.inl hnack)
    · exact .inr (.inr (.inl hloss))
    · exact .inr (.inr (.inr hdef))

/-- The head of the loss queue goes: the pass it judged may be without a handle now. -/
theorem Sound.popLoss {cause : RetxCause} {judged : WireSeq}
    (h : Sound exc ⟨e, l⟩)
    (hqueue : e.pendingLoss = (content, cause, judged) :: rest) :
    Sound (fun k w => (content = .tile k ∧ judged = w) ∨ exc k w)
      ⟨e.popLoss content rest, l⟩ where
  books := by
    have hmem : ∀ r ∈ rest, r ∈ e.pendingLoss := by
      intro r hr
      rw [hqueue]
      exact mem_cons_of_mem _ hr
    exact
      { h.books with
        toQueuedOnce := h.books.toQueuedOnce.popLoss hqueue
        moot := fun k c hk d hd hkey hws r hr => h.books.moot k c hk d hd hkey hws r (hmem r hr) }
  owned := h.owned.idle ⟨fun _ _ hk => hk, rfl, rfl⟩
  handles := by
    refine h.handles.idle ⟨fun _ _ hk => hk, rfl, rfl⟩ ?_ fun _ _ hx => .inr hx
    intro k c _ hq
    rcases hq with hnack | ⟨r, hr, hkey, hws⟩ | hdef
    · exact .inr (.inl hnack)
    · rw [hqueue, mem_cons] at hr
      rcases hr with rfl | hr
      · exact .inl (.inl ⟨hkey, hws⟩)
      · exact .inr (.inr (.inl ⟨r, hr, hkey, hws⟩))
    · exact .inr (.inr (.inr hdef))

theorem QueueHandle.mono {w : WireSeq} (h : QueueHandle e key w)
    (hnacks : ∀ k ∈ e.pendingNacks, k ∈ e'.pendingNacks)
    (hloss : ∀ r ∈ e.pendingLoss, r ∈ e'.pendingLoss) (hdef : ∀ d ∈ e.deferred, d ∈ e'.deferred) :
    QueueHandle e' key w := by
  rcases h with hk | ⟨r, hr, hrest⟩ | ⟨d, hd, hrest⟩
  · exact .inl (hnacks key hk)
  · exact .inr (.inl ⟨r, hloss r hr, hrest⟩)
  · exact .inr (.inr ⟨d, hdef d hd, hrest⟩)

theorem Sound.queueNack (h : Sound exc ⟨e, l⟩) (hnew : key ∉ e.pendingNackSet) :
    Sound exc ⟨e.queueNack key, l⟩ where
  books := { h.books with toQueuedOnce := h.books.toQueuedOnce.queueNack hnew }
  owned := h.owned.idle ⟨fun _ _ hk => hk, rfl, rfl⟩
  handles := by
    refine h.handles.idle ⟨fun _ _ hk => hk, rfl, rfl⟩ (fun k c _ hq => .inr ?_) fun _ _ hx => hx
    exact hq.mono (fun k hk => mem_append_left _ hk) (fun _ hr => hr) fun _ hd => hd

theorem Sound.onNack (entries : List EmitKey) :
    ∀ {e : ReliableTileEmitter}, Sound exc ⟨e, l⟩ → Sound exc ⟨e.onNack entries, l⟩ := by
  induction entries with
  | nil => exact fun h => h
  | cons nacked entries ih =>
    intro e h
    refine ih ?_
    unfold nackOne
    simp only
    split_ifs with hskip
    · exact h
    · exact h.queueNack (not_or.1 hskip).2

/-! ### Requests -/

@[simp] theorem entryOf_tile (e : ReliableTileEmitter) (key : EmitKey) :
    e.entryOf (.tile key) = e.cache.get key := rfl

theorem Books.waiting_tile (h : Books e) (key : EmitKey) :
    e.waiting (.tile key) = true ↔
      (∃ r ∈ e.pendingLoss, r.1 = .tile key) ∨ key ∈ e.pendingNacks := by
  unfold waiting
  simp only [tile?, Option.any_some, Bool.or_eq_true, decide_eq_true_eq]
  rw [h.lossSet, h.nackSet, mem_map]

/-- The request is current and nothing waits for it: it may join the loss queue. -/
theorem Sound.queueLoss (h : Sound exc ⟨e, l⟩)
    (hentry : e.entryOf content = some c) (hwait : e.waiting content = false) (cause : RetxCause) :
    Sound exc ⟨e.queueLoss content cause c.latestWs, l⟩ where
  books := by
    refine { h.books with toQueuedOnce := h.books.toQueuedOnce.queueLoss hwait cause _, moot := ?_ }
    intro k c' hk d hd hkey hws r hr hrkey
    rcases mem_append.1 hr with hr | hr
    · exact h.books.moot k c' hk d hd hkey hws r hr hrkey
    · -- the new request judges the newest transmission
      rw [mem_singleton.1 hr] at hrkey ⊢
      replace hrkey : content = .tile k := hrkey
      replace hk : e.cache.get k = some c' := hk
      rw [hrkey, entryOf_tile, hk] at hentry
      cases hentry
      rfl
  owned := h.owned.idle ⟨fun _ _ hk => hk, rfl, rfl⟩
  handles := by
    refine h.handles.idle ⟨fun _ _ hk => hk, rfl, rfl⟩ (fun k c _ hq => .inr ?_) fun _ _ hx => hx
    exact hq.mono (fun _ hk => hk) (fun r hr => mem_append_left _ hr) fun _ hd => hd

/-- The same for the deferred heap. -/
theorem Sound.defer (h : Sound exc ⟨e, l⟩) (hentry : e.entryOf content = some c)
    (hwait : e.waiting content = false) : Sound exc ⟨e.defer cfg content c.latestWs, l⟩ := by
  unfold ReliableTileEmitter.defer
  rw [hentry]
  refine ⟨{ h.books with deferredUsed := ?_, moot := ?_ },
    h.owned.idle ⟨fun _ _ hk => hk, rfl, rfl⟩, ?_⟩
  · intro d hd k hkey
    rcases (mem_orderedInsert _).1 hd with rfl | hd
    · replace hkey : content = .tile k := hkey
      rw [hkey] at hentry
      exact h.books.cachedUsed k c hentry
    · exact h.books.deferredUsed d hd k hkey
  · intro k c' hk d hd hkey hws r hr hrkey
    rcases (mem_orderedInsert _).1 hd with rfl | hd
    · -- nothing waits for the pass, so there is no request at all
      replace hkey : content = .tile k := hkey
      rw [hkey] at hwait
      have hwaits := (h.books.waiting_tile k).2 (.inl ⟨r, hr, hrkey⟩)
      rw [hwait] at hwaits
      cases hwaits
    · exact h.books.moot k c' hk d hd hkey hws r hr hrkey
  · refine h.handles.idle ⟨fun _ _ hk => hk, rfl, rfl⟩ (fun k c _ hq => .inr ?_) fun _ _ hx => hx
    exact hq.mono (fun _ hk => hk) (fun _ hr => hr)
      fun d hd => (mem_orderedInsert _).2 (.inr hd)

/-- A request changes nothing, or its content is current, nothing waits for it, and it joins a
queue. -/
theorem requestRetransmit_cases (cfg : EmitterConfig) (e : ReliableTileEmitter)
    (content : Content) (ws : WireSeq) (cause : RetxCause) :
    let e' := (e.requestRetransmit cfg content ws cause).1
    e' = e ∨ ∃ c, e.entryOf content = some c ∧ c.latestWs = ws ∧ e.waiting content = false ∧
      (e' = e.queueLoss content cause c.latestWs ∨ e' = e.defer cfg content c.latestWs) := by
  dsimp only
  unfold requestRetransmit
  split_ifs
  · exact .inl rfl
  unfold classifyRetx
  cases hentry : e.entryOf content with
  | none => exact .inl rfl
  | some c =>
    by_cases hws : c.latestWs = ws
    · cases hwait : e.waiting content with
      | true => exact .inl (by simp [hws, applyRequest])
      | false =>
        subst hws
        dsimp only
        rw [if_neg (not_not.2 rfl), if_neg Bool.false_ne_true]
        split_ifs
        · exact .inl rfl
        · exact .inr ⟨c, rfl, rfl, rfl, .inr rfl⟩
        · exact .inr ⟨c, rfl, rfl, rfl, .inl rfl⟩
    · exact .inl (by simp [hws, applyRequest])

@[simp] theorem defer_pendingLoss (cfg : EmitterConfig) (e : ReliableTileEmitter)
    (content : Content) (ws : WireSeq) : (e.defer cfg content ws).pendingLoss = e.pendingLoss := by
  unfold defer
  split <;> rfl

@[simp] theorem defer_pendingNacks (cfg : EmitterConfig) (e : ReliableTileEmitter)
    (content : Content) (ws : WireSeq) :
    (e.defer cfg content ws).pendingNacks = e.pendingNacks := by
  unfold defer
  split <;> rfl

theorem requestRetransmit_rests (cfg : EmitterConfig) (e : ReliableTileEmitter)
    (content : Content) (ws : WireSeq) (cause : RetxCause) :
    let e' := (e.requestRetransmit cfg content ws cause).1
    e'.cache = e.cache ∧ e'.transmissions = e.transmissions := by
  rcases requestRetransmit_cases cfg e content ws cause with h | ⟨c, hentry, -, -, h | h⟩
  · rw [h]
    exact ⟨rfl, rfl⟩
  · rw [h]
    exact ⟨rfl, rfl⟩
  · rw [h, defer, hentry]
    exact ⟨rfl, rfl⟩

theorem Sound.request (h : Sound exc ⟨e, l⟩) (content : Content) (ws : WireSeq)
    (cause : RetxCause) :
    Sound exc ⟨(e.requestRetransmit cfg content ws cause).1, l⟩ := by
  rcases requestRetransmit_cases cfg e content ws cause with hr | ⟨c, hentry, -, hwait, hr | hr⟩
  · rw [hr]
    exact h
  · rw [hr]
    exact h.queueLoss hentry hwait cause
  · rw [hr]
    exact h.defer hentry hwait

/-- No request for an older transmission of the pass waits, unless a NACK repair waits too. -/
def NoStaleRequest (e : ReliableTileEmitter) (key : EmitKey) (w : WireSeq) : Prop :=
  ∀ r ∈ e.pendingLoss, r.1 = .tile key → r.2.2 = w ∨ key ∈ e.pendingNacks

/-- A request about the newest transmission of a cached pass leaves a handle behind, unless an
older request stands in its way. -/
theorem request_queueHandle (hb : Books e) (hrto : cfg.noRto = false)
    (hk : e.cache.get key = some c) (hfresh : NoStaleRequest e key c.latestWs) (cause : RetxCause) :
    QueueHandle (e.requestRetransmit cfg (.tile key) c.latestWs cause).1 key c.latestWs := by
  unfold requestRetransmit
  rw [if_neg (by simp [hrto])]
  unfold classifyRetx
  rw [entryOf_tile, hk]
  cases hwait : e.waiting (.tile key) with
  | true =>
    simp only [ne_eq, not_true_eq_false, if_false, if_true, applyRequest]
    rcases (hb.waiting_tile key).1 hwait with ⟨r, hr, hkey⟩ | hnack
    · rcases hfresh r hr hkey with hws | hnack
      · exact .inr (.inl ⟨r, hr, hkey, hws⟩)
      · exact .inl hnack
    · exact .inl hnack
  | false =>
    simp only [ne_eq, not_true_eq_false, if_false, Bool.false_eq_true, isPFrame, false_and]
    split_ifs
    · refine .inr (.inr ?_)
      simp only [applyRequest, defer, entryOf_tile, hk]
      exact ⟨_, (mem_orderedInsert _).2 (.inl rfl), rfl, rfl⟩
    · exact .inr (.inl ⟨_, mem_append_right _ (mem_singleton_self _), rfl, rfl⟩)

/-- A request never makes a newer one stale. -/
theorem NoStaleRequest.request (h : NoStaleRequest e key c.latestWs) (hk : e.cache.get key = some c)
    (content : Content) (ws : WireSeq) (cause : RetxCause) :
    NoStaleRequest (e.requestRetransmit cfg content ws cause).1 key c.latestWs := by
  rcases requestRetransmit_cases cfg e content ws cause with hr | ⟨c', hentry, -, -, hr | hr⟩
  · rw [hr]
    exact h
  · rw [hr]
    intro r hmem hkey
    rcases mem_append.1 hmem with hmem | hmem
    · exact h r hmem hkey
    · rw [mem_singleton.1 hmem] at hkey ⊢
      replace hkey : content = .tile key := hkey
      rw [hkey, entryOf_tile, hk] at hentry
      cases hentry
      exact .inl rfl
  · rw [hr]
    intro r hmem hkey
    rw [defer_pendingLoss] at hmem
    rw [defer_pendingNacks]
    exact h r hmem hkey

/-- The requests of one turn, in order. -/
def requestAll (cfg : EmitterConfig) (cause : RetxCause) (e : ReliableTileEmitter)
    (requests : List (Content × WireSeq)) : ReliableTileEmitter :=
  requests.foldl (fun e r => (e.requestRetransmit cfg r.1 r.2 cause).1) e

/-- A turn of requests gives every pass it names its handle back. -/
theorem Sound.requestAll (hrto : cfg.noRto = false) (cause : RetxCause)
    (requests : List (Content × WireSeq)) :
    ∀ {e : ReliableTileEmitter}, Sound (fun k w => (tile k, w) ∈ requests) ⟨e, l⟩ →
      (∀ k c, e.cache.get k = some c → (tile k, c.latestWs) ∈ requests →
        NoStaleRequest e k c.latestWs) →
      Sound noExc ⟨requestAll cfg cause e requests, l⟩ := by
  induction requests with
  | nil =>
    intro e h _
    exact h.discharge fun k c _ hmem => absurd hmem not_mem_nil
  | cons request rest ih =>
    intro e h hfresh
    obtain ⟨content, ws⟩ := request
    have hcache := (requestRetransmit_rests cfg e content ws cause).1
    refine ih ((h.request content ws cause).restate ?_) ?_
    · intro k c hk hmem
      replace hk : e.cache.get k = some c := hcache ▸ hk
      rcases mem_cons.1 hmem with hhead | hmem
      · cases hhead
        have hstale := hfresh k c hk (mem_cons_self)
        exact .inr (.inr (.inr (request_queueHandle h.books hrto hk hstale cause)))
      · exact .inl hmem
    · intro k c hk hmem
      replace hk : e.cache.get k = some c := hcache ▸ hk
      exact (hfresh k c hk (mem_cons_of_mem _ hmem)).request hk content ws cause

/-! ### The budgeted ticks -/

theorem Room.mono {m n : ℕ} (h : Room e m) (hmn : n ≤ m) : Room e n := by
  unfold Room at h ⊢
  omega

/-- A taken NACK entry is sent or its pass is gone; either way nothing is left behind. -/
theorem Sound.tickNacks (maxRetransmits maxBytes n : ℕ) (queue : List EmitKey)
    {e : ReliableTileEmitter} (count spent : ℕ) (hqueue : e.pendingNacks = queue)
    (hroom : Room e (n + queue.length)) (h : Sound noExc ⟨e, l⟩) :
    let r := tickNacks now maxRetransmits maxBytes queue e count spent
    Sound noExc ⟨r.1, l⟩ ∧ Room r.1 n ∧ r.1.pendingLoss = e.pendingLoss := by
  dsimp only
  fun_induction ReliableTileEmitter.tickNacks now maxRetransmits maxBytes queue e count spent with
  | case1 => exact ⟨h, hroom, rfl⟩
  | case2 key rest e _ _ _ hk ih =>
    refine ih rfl (hroom.mono (Nat.le_succ _)) ((h.popNack hqueue).discharge ?_)
    rintro k c hc (rfl | hfalse)
    · replace hc : e.cache.get k = some c := hc
      rw [hk] at hc
      cases hc
    · exact hfalse
  | case3 key rest e _ _ _ c hk ih =>
    have hsends := (resend_sends (e.popNack key rest) key c now (h.books.long key c hk)).1
    have hsound := ((h.popNack hqueue).sends (n := n + rest.length) hsends hroom).discharge (by
      rintro k c' - ⟨hne, rfl | hfalse⟩
      · exact hne rfl
      · exact hfalse)
    obtain ⟨hs, hr, hloss⟩ := ih hsends.nacks (hsends.room hroom) hsound
    exact ⟨hs, hr, hloss.trans hsends.loss⟩
  | case4 => exact ⟨h, hroom.mono (Nat.le_add_right _ _), rfl⟩

theorem resendContent_sends (hb : Books e) (hentry : e.entryOf content = some c)
    (now : Instant) : Sends e (e.resendContent c now content) content := by
  cases content with
  | tile key => exact (resend_sends e key c now (hb.long key c hentry)).2
  | h264Frag frameSeq fragIdx => exact fragResend_sends e frameSeq fragIdx c now
  | pad ws => cases hentry

/-- A taken request is sent, or its content is gone, or a newer transmission has its own handle. -/
theorem Sound.tickLoss (maxRetransmits maxBytes : ℕ) (queue : List (Content × RetxCause × WireSeq))
    {e : ReliableTileEmitter} (count spent : ℕ) (hqueue : e.pendingLoss = queue)
    (hroom : Room e queue.length) (h : Sound noExc ⟨e, l⟩) :
    Sound noExc ⟨(tickLoss now maxRetransmits maxBytes queue e count spent).1, l⟩ := by
  -- a request for content that is gone, or was sent again since, goes without harm
  have hdrop : ∀ {e : ReliableTileEmitter} {content cause judged rest},
      e.pendingLoss = (content, cause, judged) :: rest → Sound noExc ⟨e, l⟩ →
      (∀ c, e.entryOf content = some c → c.latestWs ≠ judged) →
      Sound noExc ⟨e.popLoss content rest, l⟩ := by
    intro e content cause judged rest hqueue h hstale
    refine (h.popLoss hqueue).discharge ?_
    rintro k c hc (⟨rfl, hws⟩ | hfalse)
    · exact hstale c hc hws.symm
    · exact hfalse
  fun_induction ReliableTileEmitter.tickLoss now maxRetransmits maxBytes queue e count spent with
  | case1 => exact h
  | case2 _ _ _ _ _ _ _ _ hentry ih =>
    exact ih rfl (hroom.mono (Nat.le_succ _)) (hdrop hqueue h (by simp [hentry]))
  | case3 _ _ _ _ _ _ _ _ c hentry hnewer ih =>
    refine ih rfl (hroom.mono (Nat.le_succ _)) (hdrop hqueue h fun c' hc' => ?_)
    rw [hentry] at hc'
    cases hc'
    exact hnewer
  | case4 content _ _ rest e _ _ _ c hentry _ ih =>
    have hpop := h.popLoss hqueue
    have hsends : Sends (e.popLoss content rest) _ content :=
      resendContent_sends hpop.books hentry now
    have hsound := (hpop.sends (n := rest.length) hsends hroom).discharge (by
      rintro k c' - ⟨hne, ⟨rfl, -⟩ | hfalse⟩
      · exact hne rfl
      · exact hfalse)
    exact ih hsends.loss (hsends.room hroom) hsound
  | case5 => exact h

theorem Sound.tickBudgeted (h : Sound noExc ⟨e, l⟩) (now : Instant) (maxRetransmits maxBytes : ℕ)
    (hroom : Room e (e.pendingLoss.length + e.pendingNacks.length)) :
    Sound noExc ⟨(e.tickBudgeted now maxRetransmits maxBytes).1, l⟩ := by
  obtain ⟨hs, hr, hloss⟩ :=
    Sound.tickNacks now maxRetransmits maxBytes e.pendingLoss.length e.pendingNacks 0 0 rfl hroom h
  rw [← hloss] at hr
  exact Sound.tickLoss now maxRetransmits _ _ _ _ rfl hr hs

/-! ### Deferred passes -/

/-- What `takeDue` leaves was there before, and what it drops is moot or handed out. -/
theorem takeDue_spec (e : ReliableTileEmitter) (now : Instant) (n : ℕ) (ds : List DeferredPass) :
    ∀ out, let r := e.takeDue now n ds out
      (∀ d ∈ r.1, d ∈ ds) ∧ (∀ x ∈ out, x ∈ r.2) ∧
      (∀ x ∈ r.2, x ∈ out ∨ ∃ d ∈ ds, (d.key, d.judgedWs) = x) ∧
      ∀ d ∈ ds, d ∈ r.1 ∨ e.isNewest d.key d.judgedWs = false ∨ (d.key, d.judgedWs) ∈ r.2 := by
  dsimp only
  induction ds with
  | nil =>
    intro out
    exact ⟨by simp [takeDue], fun x hx => hx, fun x hx => .inl hx, nofun⟩
  | cons d rest ih =>
    intro out
    unfold takeDue
    split_ifs with hdue hnewest
    · obtain ⟨hleft, hout, hfrom, hall⟩ := ih (out ++ [(d.key, d.judgedWs)])
      refine ⟨fun x hx => mem_cons_of_mem _ (hleft x hx),
        fun x hx => hout x (mem_append_left _ hx), ?_, ?_⟩
      · intro x hx
        rcases hfrom x hx with hx | ⟨d', hd', hx⟩
        · rcases mem_append.1 hx with hx | hx
          · exact .inl hx
          · exact .inr ⟨d, mem_cons_self, (mem_singleton.1 hx).symm⟩
        · exact .inr ⟨d', mem_cons_of_mem _ hd', hx⟩
      · intro d' hd'
        rcases mem_cons.1 hd' with rfl | hd'
        · exact .inr (.inr (hout _ (mem_append_right _ (mem_singleton_self _))))
        · exact hall d' hd'
    · obtain ⟨hleft, hout, hfrom, hall⟩ := ih out
      refine ⟨fun x hx => mem_cons_of_mem _ (hleft x hx), hout, ?_, ?_⟩
      · intro x hx
        rcases hfrom x hx with hx | ⟨d', hd', hx⟩
        · exact .inl hx
        · exact .inr ⟨d', mem_cons_of_mem _ hd', hx⟩
      · intro d' hd'
        rcases mem_cons.1 hd' with rfl | hd'
        · exact .inr (.inl (by simpa using hnewest))
        · exact hall d' hd'
    · exact ⟨fun x hx => hx, fun x hx => hx, fun x hx => .inl hx, fun d' hd' => .inl hd'⟩

/-- The passes handed out are the ones that may be without a handle now. -/
theorem Sound.takeDueDeferred (h : Sound noExc ⟨e, l⟩) (now : Instant) (n : ℕ) :
    Sound (fun k w => (tile k, w) ∈ (e.takeDueDeferred now n).2)
      ⟨(e.takeDueDeferred now n).1, l⟩ := by
  obtain ⟨hleft, -, -, hall⟩ := takeDue_spec e now n e.deferred []
  refine ⟨{ h.books with deferredUsed := ?_, moot := ?_ },
    h.owned.idle ⟨fun _ _ hk => hk, rfl, rfl⟩, ?_⟩
  · exact fun d hd => h.books.deferredUsed d (hleft d hd)
  · exact fun k c hk d hd => h.books.moot k c hk d (hleft d hd)
  · refine h.handles.idle ⟨fun _ _ hk => hk, rfl, rfl⟩ ?_ fun _ _ hx => hx.elim
    rintro k c hk (hnack | hloss | ⟨d, hd, hkey, hws⟩)
    · exact .inr (.inl hnack)
    · exact .inr (.inr (.inl hloss))
    · rcases hall d hd with hd | hmoot | hout
      · exact .inr (.inr (.inr ⟨d, hd, hkey, hws⟩))
      · rw [hkey, hws, isNewest, entryOf_tile, hk] at hmoot
        simp at hmoot
      · rw [hkey, hws] at hout
        exact .inl hout

/-- A deferred pass that is handed out has no stale request in its way. -/
theorem noStale_of_taken (h : Sound noExc ⟨e, l⟩) (now : Instant) (n : ℕ) {k : EmitKey}
    (hk : e.cache.get k = some c)
    (hmem : (tile k, c.latestWs) ∈ (e.takeDueDeferred now n).2) :
    NoStaleRequest (e.takeDueDeferred now n).1 k c.latestWs := by
  obtain ⟨-, -, hfrom, -⟩ := takeDue_spec e now n e.deferred []
  rcases hfrom _ hmem with hnil | ⟨d, hd, heq⟩
  · exact absurd hnil not_mem_nil
  · obtain ⟨hkey, hws⟩ := Prod.mk.inj heq
    exact fun r hr hrkey => .inl (h.books.moot k c hk d hd hkey hws r hr hrkey)

end Ghostframe.Transport
