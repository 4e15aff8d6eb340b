import Ghostframe.Feedback.Journal
import Ghostframe.Feedback.Streams

/-!
# Feedback is confined to its connection and to the live session

`Flow` is the invariant of the bridge between any two steps of the dispatcher: who is live
follows from the journal, every message other than HELLO came from the live session, and
the bytes of each connection are accounted for, from the feedback queue over the batch of
`drain_app_events` and the accumulator to what the message loop has consumed.

* `Flow.step`, `flow_run`: so does every step of the bridge, and every run.
-/

namespace Ghostframe.Feedback

open Transport Bridge Dict Ev List Option WebTransportServer
open Function (update update_self update_of_ne)

namespace Bridge

/-- The accumulators of the senders. -/
def tails (b : Bridge) (h : Handle) : Bytes := (b.feedbackRecvBufs.get? h).getD []

/-- The bytes a connection has in the batch. -/
def batchOf (b : Bridge) (c : Conn) (batch : List (Handle × Bytes)) : Bytes :=
  batch.flatMap fun e => if b.connAt e.1 = c then e.2 else []

theorem connAt_inj {b : Bridge} {h g : Handle} : b.connAt h = b.connAt g ↔ h = g := by
  constructor
  · intro heq
    exact congrArg Conn.handle heq
  · rintro rfl
    rfl

theorem connAt_congr {b b' : Bridge} (hepoch : b'.epoch = b.epoch) : b'.connAt = b.connAt := by
  funext h
  rw [connAt, connAt, hepoch]

theorem batchOf_congr {b b' : Bridge} (hepoch : b'.epoch = b.epoch) (c : Conn)
    (batch : List (Handle × Bytes)) : b'.batchOf c batch = b.batchOf c batch := by
  rw [batchOf, batchOf, connAt_congr hepoch]

end Bridge

/-- The invariant: `tail` is what each sender has at hand, the accumulator or what the
message loop still has to look at; `batch` are the chunks not yet dispatched. -/
structure Flow (b : Bridge) (tail : Handle → Bytes) (batch : List (Handle × Bytes)) : Prop where
  live : liveSession b.journal = b.lastHelloFrom.map b.connAt
  guarded : Guarded b.journal
  fresh : ∀ ev ∈ b.journal, ev.conn.epoch ≤ b.epoch ev.conn.handle
  current : ∀ h, chunksOf (b.connAt h) b.journal = consumedOf (b.connAt h) b.journal ++ tail h
  past : ∀ c, b.connAt c.handle ≠ c → chunksOf c b.journal = consumedOf c b.journal
  handed : ∀ c, chunksOf c b.journal ++ b.batchOf c batch <+: queuedOf c b.journal
  waiting : ∀ h w, b.wtSessions.get? h = some w → queuedOf (b.connAt h) b.journal =
    chunksOf (b.connAt h) b.journal ++ b.batchOf (b.connAt h) batch ++ w.feedbackQueue.flatten
  ordered : ∀ h w, b.wtSessions.get? h = some w → w.Ordered
  traced : ∀ h w, b.wtSessions.get? h = some w → ∀ sid,
    w.Traced sid (readOn (b.connAt h) sid b.journal) (queuedOn (b.connAt h) sid b.journal)
  piece : ∀ c sid, queuedOn c sid b.journal <:+: readOn c sid b.journal

variable {b b' : Bridge} {tail tail' : Handle → Bytes} {batch batch' : List (Handle × Bytes)}
  {g h : Handle} {now : Instant}

/-! ### One journaled step -/

/-- The sessions of `b'` are sessions of `b`. -/
def SubSessions (b b' : Bridge) : Prop :=
  ∀ h w, b'.wtSessions.get? h = some w → b.wtSessions.get? h = some w

theorem subSessions_of_eq (h : b'.wtSessions = b.wtSessions) : SubSessions b b' := by
  intro k w hw
  rwa [h] at hw

/-- One event of the connection at `g` that queues nothing: what it hands to the
dispatcher comes off the batch, and what it consumes was at hand. -/
theorem Flow.snoc (hf : Flow b tail batch) (ev : Ev) (hconn : ev.conn = b.connAt g)
    (hjournal : b'.journal = b.journal ++ [ev]) (hepoch : b'.epoch = b.epoch)
    (hsessions : SubSessions b b')
    (hlive : liveStep (liveSession b.journal) ev = b'.lastHelloFrom.map b.connAt)
    (hguard : ∀ c raw msg, ev = .message c raw msg → msg.isHello = false →
      liveSession b.journal = some c)
    (hinput : ev.isInput = false)
    (hbatch : ∀ c, ev.chunkOf c ++ b.batchOf c batch' = b.batchOf c batch)
    (hbytes : tail g ++ ev.chunkOf (b.connAt g) = ev.consumedOf (b.connAt g) ++ tail' g)
    (htail : ∀ k, k ≠ g → tail' k = tail k) : Flow b' tail' batch' where
  live := by rw [hjournal, liveSession_append_singleton, hlive, connAt_congr hepoch]
  guarded := by
    rw [hjournal]
    exact hf.guarded.snoc hguard
  fresh := by
    intro e he
    rw [hjournal, mem_append, mem_singleton] at he
    rw [hepoch]
    rcases he with he | rfl
    · exact hf.fresh e he
    · rw [hconn]
      exact le_rfl
  current := by
    intro k
    rw [connAt_congr hepoch, hjournal]
    -- no other connection sees the event
    by_cases hk : k = g
    · subst hk
      simp only [chunksOf_append, consumedOf_append, chunksOf_singleton, consumedOf_singleton,
        hf.current, append_assoc, hbytes]
    · have hne : ev.conn ≠ b.connAt k := by
        rw [hconn]
        exact fun heq => hk (connAt_inj.1 heq).symm
      simp [hf.current, chunkOf_of_ne hne, consumedOf_of_ne hne, htail k hk]
  past := by
    intro c hc
    rw [connAt_congr hepoch] at hc
    have hne : ev.conn ≠ c := by
      rw [hconn]
      rintro rfl
      exact hc rfl
    simp [hjournal, hf.past c hc, chunkOf_of_ne hne, consumedOf_of_ne hne]
  handed := by
    intro c
    rw [batchOf_congr hepoch, hjournal]
    simpa [queuedOf_of_not_input hinput, hbatch] using hf.handed c
  waiting := by
    intro k w hw
    rw [connAt_congr hepoch, batchOf_congr hepoch, hjournal]
    simp [queuedOf_of_not_input hinput, hf.waiting k w (hsessions k w hw),
      ← hbatch (b.connAt k)]
  ordered := fun k w hw => hf.ordered k w (hsessions k w hw)
  traced := by
    intro k w hw sid
    rw [connAt_congr hepoch, hjournal]
    simpa [readOn_of_not_input hinput, queuedOn_of_not_input hinput] using
      hf.traced k w (hsessions k w hw) sid
  piece := by
    intro c sid
    rw [hjournal]
    simpa [readOn_of_not_input hinput, queuedOn_of_not_input hinput] using hf.piece c sid

/-- A change that is not journaled keeps `Flow` as long as the sessions stay. -/
theorem Flow.congr (hf : Flow b tail batch) (hjournal : b'.journal = b.journal)
    (hepoch : b'.epoch = b.epoch) (hlast : b'.lastHelloFrom = b.lastHelloFrom)
    (hsessions : SubSessions b b') : Flow b' tail batch := by
  obtain ⟨sessions, bufs, last, deadlines, takeover, caps, epoch, journal⟩ := b
  cases hjournal
  cases hepoch
  cases hlast
  exact ⟨hf.live, hf.guarded, hf.fresh, hf.current, hf.past, hf.handed,
    fun k w hw => hf.waiting k w (hsessions k w hw),
    fun k w hw => hf.ordered k w (hsessions k w hw),
    fun k w hw => hf.traced k w (hsessions k w hw), hf.piece⟩

/-! ### The steps of a session -/

theorem Flow.closeBy (hf : Flow b tail batch) (deadline : Instant) (code : CloseCode) :
    Flow (b.closeBy g deadline code) tail batch :=
  hf.congr rfl rfl rfl (subSessions_of_eq rfl)

theorem Flow.dropRecvBuf (hf : Flow b tail batch) (hg : tail g = b.tails g) :
    Flow (b.dropRecvBuf g) (update tail g []) batch := by
  refine hf.snoc (.dropped (b.connAt g) (b.tails g)) rfl rfl rfl (subSessions_of_eq rfl)
    hf.live (by simp) rfl (fun c => rfl) ?_ fun k hk => update_of_ne hk _ _
  simp [Ev.chunkOf, Ev.consumedOf, hg]

theorem Flow.dropSession (hf : Flow b tail batch) : Flow (b.dropSession g) tail batch := by
  have hsessions : SubSessions b (b.dropSession g) := by
    intro k w hw
    exact (get?_of_get?_erase hw).2
  refine hf.snoc (.ended (b.connAt g)) rfl rfl rfl hsessions ?_ (by simp) rfl (fun c => rfl)
    (append_nil _) fun k hk => rfl
  show (if liveSession b.journal = some (b.connAt g) then none else liveSession b.journal) =
    Option.map b.connAt (if b.lastHelloFrom = some g then none else b.lastHelloFrom)
  rw [hf.live]
  cases hlast : b.lastHelloFrom with
  | none => simp
  | some k =>
    by_cases hk : k = g
    · simp [hk]
    · simp [hk, connAt_inj]

theorem Flow.forgetSession (hf : Flow b tail batch) (hg : tail g = b.tails g) :
    Flow (b.forgetSession g) (update tail g []) batch :=
  (hf.dropRecvBuf hg).dropSession

theorem Flow.becomeLive (hf : Flow b tail batch) (caps : ClientCapabilities) :
    Flow (b.becomeLive h now caps) tail batch :=
  hf.snoc (.took (b.connAt h)) rfl rfl rfl (subSessions_of_eq rfl) rfl (by simp)
    rfl (fun c => rfl) (append_nil _) fun k hk => rfl

variable {raw data buf : Bytes} {msg : Option FeedbackMsg}

/-- The message loop is done with the bytes `raw` of the connection at `h`. -/
theorem Flow.consume {rest : Bytes} (hf : Flow b (update tail h buf) batch)
    (hbuf : buf = raw ++ rest) {ev : Ev} (hconn : ev.conn = b.connAt h)
    (hlive : ∀ live, liveStep live ev = live)
    (hguard : ∀ c raw msg, ev = .message c raw msg → msg.isHello = false →
      liveSession b.journal = some c) (hinput : ev.isInput = false)
    (hchunk : ∀ c, ev.chunkOf c = []) (hraw : ev.consumedOf (b.connAt h) = raw) :
    Flow (b.log ev) (update tail h rest) batch := by
  refine hf.snoc ev hconn rfl rfl (subSessions_of_eq rfl) ((hlive _).trans hf.live) hguard hinput
    (fun c => by rw [hchunk]; rfl) ?_ fun k hk => ?_
  · rw [hchunk, hraw, update_self, update_self, append_nil, hbuf]
  · rw [update_of_ne hk, update_of_ne hk]

/-! ### HELLO -/

theorem tails_forgetSession : (b.forgetSession g).tails = update b.tails g [] := by
  funext k
  show ((b.feedbackRecvBufs.erase g).get? k).getD [] = _
  rw [get?_erase, Function.update_apply]
  split_ifs with hk
  · rfl
  · rfl

/-- What an applied HELLO can do: nothing, arm a deadline, or make its sender live, after
which another incumbent is evicted. -/
theorem applyHello_cases (b : Bridge) (h : Handle) (now : Instant) (caps : ClientCapabilities) :
    b.applyHello h now caps = b ∨
    b.applyHello h now caps = b.closeBy h now .takeoverRateLimited ∨
    b.applyHello h now caps = b.becomeLive h now caps ∨
    ∃ incumbent, incumbent ≠ h ∧ b.lastHelloFrom = some incumbent ∧
      b.applyHello h now caps = (b.becomeLive h now caps).evictSession incumbent now := by
  unfold applyHello
  split_ifs with hsession hlimited
  · exact .inl rfl
  · exact .inr (.inl rfl)
  · cases hlast : b.lastHelloFrom with
    | none => exact .inr (.inr (.inl rfl))
    | some incumbent =>
      by_cases hsame : incumbent = h
      · exact .inr (.inr (.inl (if_pos hsame)))
      · exact .inr (.inr (.inr ⟨incumbent, hsame, rfl, if_neg hsame⟩))

theorem epoch_applyHello (caps : ClientCapabilities) :
    (b.applyHello h now caps).epoch = b.epoch := by
  rcases applyHello_cases b h now caps with heq | heq | heq | ⟨incumbent, -, -, heq⟩
  · rw [heq]
  · rw [heq]
    rfl
  · rw [heq]
    rfl
  · rw [heq]
    rfl

theorem Flow.applyHello (hf : Flow b (update b.tails h buf) batch) (caps : ClientCapabilities) :
    Flow (b.applyHello h now caps) (update (b.applyHello h now caps).tails h buf) batch := by
  rcases applyHello_cases b h now caps with heq | heq | heq | ⟨incumbent, hne, -, heq⟩
  · rw [heq]
    exact hf
  · rw [heq]
    exact hf.closeBy _ _
  · rw [heq]
    exact hf.becomeLive caps
  · rw [heq]
    have hlive : Flow (b.becomeLive h now caps) (update b.tails h buf) batch :=
      hf.becomeLive caps
    have hevict := hlive.forgetSession (g := incumbent) (update_of_ne hne _ _)
    -- the accumulator of the sender is not the one that goes
    rw [Function.update_comm hne.symm] at hevict
    have htails : ((b.becomeLive h now caps).evictSession incumbent now).tails =
        update b.tails incumbent [] := tails_forgetSession
    rw [htails]
    exact hevict.closeBy _ _

theorem get?_recvBufs_applyHello (caps : ClientCapabilities)
    (hnone : b.feedbackRecvBufs.get? h = none) :
    (b.applyHello h now caps).feedbackRecvBufs.get? h = none := by
  rcases applyHello_cases b h now caps with heq | heq | heq | ⟨incumbent, hne, -, heq⟩
  · rw [heq, hnone]
  · rw [heq]
    exact hnone
  · rw [heq]
    exact hnone
  · rw [heq]
    exact (get?_erase_ne _ hne.symm).trans hnone

/-! ### The message loop -/

theorem Flow.liveSession_eq (hf : Flow b tail batch) (hlive : b.isLive h = true) :
    liveSession b.journal = some (b.connAt h) := by
  have hlast : b.lastHelloFrom = some h := of_decide_eq_true hlive
  rw [hf.live, hlast]
  rfl

/-- Only a HELLO passes the gate for a connection that is not live. -/
theorem Flow.handle {rest : Bytes} (hf : Flow b (update b.tails h buf) batch)
    (hbuf : buf = raw ++ rest) (hgate : ∀ m, msg = some m → m.isHello = false → b.isLive h = true) :
    Flow (b.handle h now raw msg) (update (b.handle h now raw msg).tails h rest) batch := by
  cases msg with
  | none =>
    exact hf.consume hbuf rfl (fun live => rfl) (by simp) rfl (fun c => rfl) (if_pos rfl)
  | some m =>
    by_cases hhello : m.isHello = true
    · obtain ⟨caps, rfl⟩ : ∃ caps, m = .hello caps := by
        cases m with
        | hello caps => exact ⟨caps, rfl⟩
        | _ => simp [FeedbackMsg.isHello] at hhello
      have hconn : (b.applyHello h now caps).connAt h = b.connAt h := by
        rw [connAt_congr (epoch_applyHello caps)]
      refine (hf.applyHello caps).consume hbuf hconn.symm (fun live => rfl) ?_ rfl (fun c => rfl)
        (if_pos hconn.symm)
      rintro c raw' msg' heq hmsg
      obtain ⟨-, -, rfl⟩ := message.inj heq
      simp [FeedbackMsg.isHello] at hmsg
    · rw [Bool.not_eq_true] at hhello
      have hhandle : b.handle h now raw (some m) = b.log (.message (b.connAt h) raw m) := by
        cases m with
        | hello caps => simp [FeedbackMsg.isHello] at hhello
        | _ => rfl
      rw [hhandle]
      refine hf.consume hbuf rfl (fun live => rfl) ?_ rfl (fun c => rfl) (if_pos rfl)
      rintro c raw' msg' heq -
      obtain ⟨rfl, -, -⟩ := message.inj heq
      exact hf.liveSession_eq (hgate m rfl hhello)

theorem get?_recvBufs_handle (hnone : b.feedbackRecvBufs.get? h = none) :
    (b.handle h now raw msg).feedbackRecvBufs.get? h = none := by
  cases msg with
  | none => exact hnone
  | some m =>
    cases m with
    | hello caps => exact get?_recvBufs_applyHello caps hnone
    | _ => exact hnone

/-- One turn of the message loop, by what is at the front of the buffer. -/
theorem dispatchLoop_succ_cases (h : Handle) (now : Instant) (fuel : ℕ) (b : Bridge) (buf : Bytes) :
    (buf = [] ∧ dispatchLoop h now (fuel + 1) b buf = (b, none)) ∨
    (buf ≠ [] ∧
      (byteAt buf 0 ≠ helloMsgType ∧ b.isLive h = false ∨ nextMessage buf = .discard) ∧
      dispatchLoop h now (fuel + 1) b buf = (b.log (.dropped (b.connAt h) buf), none)) ∨
    (buf ≠ [] ∧ nextMessage buf = .wait ∧
      dispatchLoop h now (fuel + 1) b buf = (b, some buf)) ∨
    ∃ msg n, buf ≠ [] ∧ nextMessage buf = .take msg n ∧
      (byteAt buf 0 = helloMsgType ∨ b.isLive h = true) ∧
      dispatchLoop h now (fuel + 1) b buf =
        dispatchLoop h now fuel (b.handle h now (buf.take n) msg) (buf.drop n) := by
  rw [dispatchLoop]
  split_ifs with hempty hgate
  · exact .inl ⟨hempty, rfl⟩
  · exact .inr (.inl ⟨hempty, .inl hgate, rfl⟩)
  · have hpass : byteAt buf 0 = helloMsgType ∨ b.isLive h = true := by
      rw [not_and_or, not_not, Bool.not_eq_false] at hgate
      exact hgate
    cases hfront : nextMessage buf with
    | wait => exact .inr (.inr (.inl ⟨hempty, rfl, rfl⟩))
    | discard => exact .inr (.inl ⟨hempty, .inr rfl, rfl⟩)
    | take msg n => exact .inr (.inr (.inr ⟨msg, n, hempty, rfl, hpass, rfl⟩))

/-- A message that is not a HELLO has another type byte, so its sender was live. -/
theorem isLive_of_front {n : ℕ} (hfront : nextMessage buf = .take msg n)
    (hpass : byteAt buf 0 = helloMsgType ∨ b.isLive h = true) :
    ∀ m, msg = some m → m.isHello = false → b.isLive h = true := by
  rintro m rfl hhello
  refine hpass.resolve_left fun htype => ?_
  rw [(nextMessage_taken hfront).msgType m rfl, msgType_eq_hello_iff, hhello] at htype
  cases htype

/-- The message loop keeps `Flow`; what it does not retain has been accounted for. -/
theorem Flow.dispatchLoop {fuel : ℕ} (hfuel : buf.length < fuel)
    (hnone : b.feedbackRecvBufs.get? h = none) (hf : Flow b (update b.tails h buf) batch) :
    let r := Bridge.dispatchLoop h now fuel b buf
    r.1.feedbackRecvBufs.get? h = none ∧
      Flow r.1 (update r.1.tails h (r.2.getD [])) batch := by
  dsimp only
  induction fuel generalizing b buf with
  | zero => omega
  | succ fuel ih =>
    rcases dispatchLoop_succ_cases h now fuel b buf with
      ⟨rfl, heq⟩ | ⟨-, -, heq⟩ | ⟨-, -, heq⟩ | ⟨msg, n, -, hfront, hpass, heq⟩
    · rw [heq]
      exact ⟨hnone, hf⟩
    · rw [heq]
      exact ⟨hnone, hf.consume (append_nil buf).symm rfl (fun live => rfl) (by simp)
        rfl (fun c => rfl) (if_pos rfl)⟩
    · rw [heq]
      exact ⟨hnone, hf⟩
    · rw [heq]
      obtain ⟨hpos, hle, -⟩ := nextMessage_taken hfront
      refine ih ?_ (get?_recvBufs_handle hnone) ?_
      · rw [length_drop]
        omega
      · exact hf.handle (take_append_drop n buf).symm (isLive_of_front hfront hpass)

/-- A chunk is taken off the batch and joins what the sender had at hand. -/
theorem Flow.openChunk (hf : Flow b b.tails ((h, data) :: batch)) :
    Flow (b.openChunk h data) (update (b.openChunk h data).tails h (b.tails h ++ data)) batch := by
  have htails : update (b.openChunk h data).tails h (b.tails h ++ data) =
      update b.tails h (b.tails h ++ data) := by
    funext k
    rw [Function.update_apply, Function.update_apply]
    split_ifs with hk
    · rfl
    · show ((b.feedbackRecvBufs.erase h).get? k).getD [] = _
      rw [get?_erase_ne _ hk]
      rfl
  rw [htails]
  refine hf.snoc (.chunk (b.connAt h) data) rfl rfl rfl (subSessions_of_eq rfl) hf.live (by simp)
    rfl (fun c => rfl) ?_ fun k hk => update_of_ne hk _ _
  simp [Ev.chunkOf, Ev.consumedOf]

/-- The message loop of one chunk: over what the sender had at hand and the chunk. -/
def Bridge.looped (b : Bridge) (h : Handle) (now : Instant) (data : Bytes) :
    Bridge × Option Bytes :=
  Bridge.dispatchLoop h now ((b.tails h ++ data).length + 1) (b.openChunk h data)
    (b.tails h ++ data)

/-- `dispatch_feedback_bytes` is the message loop, and its tail is put back. -/
theorem dispatchFeedbackBytes_cases (b : Bridge) (h : Handle) (now : Instant) (data : Bytes) :
    ((b.looped h now data).2 = none ∧
      b.dispatchFeedbackBytes h now data = (b.looped h now data).1) ∨
    ∃ part, (b.looped h now data).2 = some part ∧
      b.dispatchFeedbackBytes h now data =
        { (b.looped h now data).1 with
          feedbackRecvBufs := (b.looped h now data).1.feedbackRecvBufs.insert h part } := by
  unfold Bridge.dispatchFeedbackBytes Bridge.looped Bridge.tails
  dsimp only
  generalize (b.feedbackRecvBufs.get? h).getD [] ++ data = buf
  obtain ⟨end_, part⟩ := dispatchLoop h now (buf.length + 1) (b.openChunk h data) buf
  cases part with
  | none => exact .inl ⟨rfl, rfl⟩
  | some part => exact .inr ⟨part, rfl, rfl⟩

theorem Flow.looped (hf : Flow b b.tails ((h, data) :: batch)) :
    let r := b.looped h now data
    r.1.feedbackRecvBufs.get? h = none ∧
      Flow r.1 (update r.1.tails h (r.2.getD [])) batch := by
  have hnone : (b.openChunk h data).feedbackRecvBufs.get? h = none := get?_erase_self _ _
  exact hf.openChunk.dispatchLoop (Nat.lt_succ_self _) hnone

theorem Flow.dispatchFeedbackBytes (hf : Flow b b.tails ((h, data) :: batch)) :
    Flow (b.dispatchFeedbackBytes h now data) (b.dispatchFeedbackBytes h now data).tails batch := by
  obtain ⟨hnone, hflow⟩ : _ ∧ Flow (b.looped h now data).1 _ batch := hf.looped
  rcases dispatchFeedbackBytes_cases b h now data with ⟨hpart, heq⟩ | ⟨part, hpart, heq⟩
  · have hempty : (b.looped h now data).1.tails h = [] := by
      rw [Bridge.tails, hnone]
      rfl
    rw [hpart, getD_none, ← hempty, Function.update_eq_self] at hflow
    rw [heq]
    exact hflow
  · have htails : (b.dispatchFeedbackBytes h now data).tails =
        update (b.looped h now data).1.tails h part := by
      funext k
      rw [heq, Function.update_apply]
      show (((b.looped h now data).1.feedbackRecvBufs.insert h part).get? k).getD [] = _
      rw [get?_insert]
      split_ifs with hk
      · rfl
      · rfl
    rw [hpart, getD_some] at hflow
    rw [htails, heq]
    exact hflow.congr rfl rfl rfl (subSessions_of_eq rfl)

/-! ### The batch -/

theorem Flow.dispatchBatch {clock : ℕ → Instant} {k : ℕ} (hf : Flow b b.tails batch) :
    Flow (Bridge.dispatchBatch clock k batch b) (Bridge.dispatchBatch clock k batch b).tails
        [] := by
  induction batch generalizing b k with
  | nil => exact hf
  | cons e batch ih => exact ih hf.dispatchFeedbackBytes

theorem batchOf_append (b : Bridge) (c : Conn) (batch later : List (Handle × Bytes)) :
    b.batchOf c (batch ++ later) = b.batchOf c batch ++ b.batchOf c later :=
  flatMap_append

theorem batchOf_queue (b : Bridge) (h : Handle) (queue : List Bytes) :
    b.batchOf (b.connAt h) (queue.map fun d => (h, d)) = queue.flatten := by
  induction queue with
  | nil => rfl
  | cons d queue ih =>
    rw [batchOf] at ih ⊢
    simp [ih]

theorem batchOf_queue_of_ne {c : Conn} (hc : b.connAt h ≠ c) (queue : List Bytes) :
    b.batchOf c (queue.map fun d => (h, d)) = [] := by
  simp [batchOf, flatMap_map, hc]

/-- A queue that is taken goes to the end of the batch. -/
theorem Flow.collectOne (hf : Flow b tail batch) :
    Flow (Bridge.collectOne (b, batch) h).1 tail (Bridge.collectOne (b, batch) h).2 := by
  unfold Bridge.collectOne
  cases hw : b.wtSessions.get? h with
  | none => exact hf
  | some w =>
    dsimp only
    have hother : ∀ c, b.connAt h ≠ c →
        b.batchOf c (batch ++ w.feedbackQueue.map fun d => (h, d)) = b.batchOf c batch := by
      intro c hc
      rw [batchOf_append, batchOf_queue_of_ne hc, append_nil]
    have hself : b.batchOf (b.connAt h) (batch ++ w.feedbackQueue.map fun d => (h, d)) =
        b.batchOf (b.connAt h) batch ++ w.feedbackQueue.flatten := by
      rw [batchOf_append, batchOf_queue]
    refine ⟨hf.live, hf.guarded, hf.fresh, hf.current, hf.past, fun c => ?_, fun k w' hw' => ?_,
      fun k w' hw' => ?_, fun k w' hw' sid => ?_, hf.piece⟩
    · show chunksOf c b.journal ++ b.batchOf c (batch ++ _) <+: queuedOf c b.journal
      by_cases hc : b.connAt h = c
      · subst hc
        rw [hself, ← append_assoc, hf.waiting h w hw]
      · rw [hother c hc]
        exact hf.handed c
    · show queuedOf (b.connAt k) b.journal = chunksOf (b.connAt k) b.journal ++
        b.batchOf (b.connAt k) (batch ++ _) ++ w'.feedbackQueue.flatten
      rcases get?_insert_cases hw' with ⟨rfl, rfl⟩ | ⟨hk, hw'⟩
      · rw [hself, hf.waiting k w hw, append_assoc]
        simp
      · rw [hother _ fun heq => hk (connAt_inj.1 heq).symm]
        exact hf.waiting k w' hw'
    · rcases get?_insert_cases hw' with ⟨rfl, rfl⟩ | ⟨-, hw'⟩
      · exact hf.ordered k w hw
      · exact hf.ordered k w' hw'
    · rcases get?_insert_cases hw' with ⟨rfl, rfl⟩ | ⟨-, hw'⟩
      · exact ⟨(hf.traced k w hw sid).piece, (hf.traced k w hw sid).exact_⟩
      · exact hf.traced k w' hw' sid

theorem tails_collectOne (acc : Bridge × List (Handle × Bytes)) (h : Handle) :
    (collectOne acc h).1.tails = acc.1.tails := by
  unfold collectOne
  cases acc.1.wtSessions.get? h with
  | none => rfl
  | some w => rfl

theorem Flow.collect {acc : Bridge × List (Handle × Bytes)} (order : List Handle)
    (hf : Flow acc.1 acc.1.tails acc.2) :
    let r := order.foldl Bridge.collectOne acc
    Flow r.1 r.1.tails r.2 := by
  induction order generalizing acc with
  | nil => exact hf
  | cons h order ih =>
    refine ih ?_
    rw [tails_collectOne]
    exact hf.collectOne

theorem Flow.drainFeedback (hf : Flow b b.tails []) (order : List Handle) (clock : ℕ → Instant) :
    Flow (b.drainFeedback order clock) (b.drainFeedback order clock).tails [] := by
  let r := order.foldl Bridge.collectOne (b, [])
  have hcollect : Flow r.1 r.1.tails r.2 := Flow.collect order hf
  exact hcollect.dispatchBatch

/-! ### A new connection -/

theorem Flow.absent_next (hf : Flow b tail batch) :
    ∀ ev ∈ b.journal, ev.conn ≠ ⟨h, b.epoch h + 1⟩ := by
  intro ev hev heq
  have hle := hf.fresh ev hev
  rw [heq] at hle
  exact absurd hle (Nat.not_succ_le_self _)

/-- A connection is opened at a handle that nothing is left of. -/
theorem Flow.opened (hf : Flow b tail []) (hlast : b.lastHelloFrom ≠ some h) (hempty : tail h = [])
    (hjournal : b'.journal = b.journal ++ [.opened ⟨h, b.epoch h + 1⟩])
    (hepoch : b'.epoch = update b.epoch h (b.epoch h + 1))
    (hsessions : b'.wtSessions = b.wtSessions.insert h {})
    (hlast' : b'.lastHelloFrom = b.lastHelloFrom) : Flow b' tail [] := by
  have hnew : b'.connAt h = ⟨h, b.epoch h + 1⟩ := by rw [connAt, hepoch, update_self]
  have hold : ∀ k, k ≠ h → b'.connAt k = b.connAt k := by
    intro k hk
    rw [connAt, connAt, hepoch, update_of_ne hk]
  obtain ⟨hnoChunks, hnoConsumed, hnoQueued, hnoStream⟩ :=
    nothing_of_absent (hf.absent_next (h := h))
  have hbytes : ∀ c, chunksOf c b'.journal = chunksOf c b.journal ∧
      consumedOf c b'.journal = consumedOf c b.journal ∧
      queuedOf c b'.journal = queuedOf c b.journal := by
    intro c
    simp [hjournal, Ev.chunkOf, Ev.consumedOf, Ev.queuedOf]
  have hstream : ∀ c sid, readOn c sid b'.journal = readOn c sid b.journal ∧
      queuedOn c sid b'.journal = queuedOn c sid b.journal := by
    intro c sid
    simp [hjournal, Ev.readOn, Ev.queuedOn]
  have hsession : ∀ k w, b'.wtSessions.get? k = some w →
      k = h ∧ w = {} ∨ k ≠ h ∧ b.wtSessions.get? k = some w := by
    rw [hsessions]
    exact fun k w => get?_insert_cases
  refine ⟨?_, ?_, ?_, ?_, ?_, ?_, ?_, ?_, ?_, ?_⟩
  · rw [hjournal, liveSession_append_singleton, hlast']
    show liveSession b.journal = _
    rw [hf.live]
    cases hk : b.lastHelloFrom with
    | none => rfl
    | some k =>
      have hne : k ≠ h := fun heq => hlast (heq ▸ hk)
      rw [map_some, map_some, hold k hne]
  · rw [hjournal]
    exact hf.guarded.snoc (by simp)
  · intro ev hev
    rw [hjournal, mem_append, mem_singleton] at hev
    have hmono : ∀ k, b.epoch k ≤ b'.epoch k := by
      intro k
      rw [hepoch, Function.update_apply]
      split_ifs with hk
      · rw [hk]
        exact Nat.le_succ _
      · exact le_rfl
    rcases hev with hev | rfl
    · exact (hf.fresh ev hev).trans (hmono _)
    · show b.epoch h + 1 ≤ b'.epoch h
      rw [hepoch, update_self]
  · intro k
    rw [(hbytes _).1, (hbytes _).2.1]
    by_cases hk : k = h
    · rw [hk, hnew, hempty, hnoChunks, hnoConsumed]
      rfl
    · rw [hold k hk]
      exact hf.current k
  · intro c hc
    rw [(hbytes _).1, (hbytes _).2.1]
    by_cases hcur : b.connAt c.handle = c
    · -- the connection that had the handle has left nothing at hand
      have hhandle : c.handle = h := by
        by_contra hne
        exact hc ((hold _ hne).trans hcur)
      have := hf.current c.handle
      rwa [hcur, hhandle, hempty, append_nil] at this
    · exact hf.past c hcur
  · intro c
    rw [(hbytes _).1, (hbytes _).2.2]
    exact hf.handed c
  · intro k w hw
    rw [(hbytes _).1, (hbytes _).2.2]
    rcases hsession k w hw with ⟨rfl, rfl⟩ | ⟨hk, hw⟩
    · rw [hnew, hnoChunks, hnoQueued]
      rfl
    · rw [hold k hk]
      exact hf.waiting k w hw
  · intro k w hw
    rcases hsession k w hw with ⟨rfl, rfl⟩ | ⟨hk, hw⟩
    · exact fun _ => ⟨rfl, rfl⟩
    · exact hf.ordered k w hw
  · intro k w hw sid
    rw [(hstream _ _).1, (hstream _ _).2]
    rcases hsession k w hw with ⟨rfl, rfl⟩ | ⟨hk, hw⟩
    · rw [hnew, (hnoStream sid).1, (hnoStream sid).2]
      exact ⟨infix_rfl, fun _ _ _ => ⟨⟨[], rfl⟩, fun _ => rfl⟩⟩
    · rw [hold k hk]
      exact hf.traced k w hw sid
  · intro c sid
    rw [(hstream _ _).1, (hstream _ _).2]
    exact hf.piece c sid

theorem Flow.onConnectionEstablished (hf : Flow b b.tails []) :
    Flow (b.onConnectionEstablished h) (b.onConnectionEstablished h).tails [] := by
  have hforget : Flow (b.forgetSession h) (b.forgetSession h).tails [] := by
    rw [tails_forgetSession]
    exact hf.forgetSession rfl
  have htails : (b.onConnectionEstablished h).tails = (b.forgetSession h).tails := rfl
  rw [htails]
  refine hforget.opened (h := h) ?_ ?_ ?_ rfl rfl rfl
  · show (if b.lastHelloFrom = some h then none else b.lastHelloFrom) ≠ some h
    split_ifs with hlast
    · exact nofun
    · exact hlast
  · rw [tails_forgetSession, update_self]
  · show (b.forgetSession h).journal ++
      [Ev.opened ⟨h, update b.epoch h (b.epoch h + 1) h⟩] = _
    rw [update_self]
    rfl

/-! ### A readable stream -/

theorem foldl_log_queued (h : Handle) (sid : StreamId) (more : List Bytes) (b : Bridge) :
    more.foldl (fun b d => b.log (.queued (b.connAt h) sid d)) b =
      { b with journal := b.journal ++ more.map (.queued (b.connAt h) sid) } := by
  induction more generalizing b with
  | nil => simp
  | cons d more ih =>
    rw [foldl_cons, ih]
    simp [log, connAt]

/-- What a readable stream does to the bridge. -/
theorem onReadable_eq {w : WebTransportServer} {sid : StreamId} {bytes : Bytes} {fin : Bool}
    {outcome : ConnectOutcome} (hw : b.wtSessions.get? h = some w) :
    b.onReadable h sid bytes fin outcome =
      { b with
        wtSessions := b.wtSessions.insert h (w.onStreamReadable sid bytes fin outcome)
        journal := b.journal ++ inputs (b.connAt h) sid (sid ∈ w.closed) w.connected bytes
          (newlyQueued w (w.onStreamReadable sid bytes fin outcome)) } := by
  unfold onReadable
  rw [hw]
  dsimp only
  rw [foldl_log_queued]
  by_cases hclosed : sid ∈ w.closed
  · rw [if_pos hclosed, inputs, if_pos (decide_eq_true hclosed), nil_append]
    rfl
  · rw [if_neg hclosed, inputs, if_neg (by simpa using hclosed), ← append_assoc]
    rfl

/-- A session takes in what one stream brings. -/
theorem Flow.append_inputs (hf : Flow b tail batch) {w w' : WebTransportServer} {sid : StreamId}
    {shut accepted : Bool} {bytes : Bytes} {more : List Bytes} {later : List Ev}
    (hw : b.wtSessions.get? h = some w) (hqueues : w.Queues w' more) (hord : w'.Ordered)
    (hlater : later = inputs (b.connAt h) sid shut accepted bytes more)
    (htraced : ∀ s, w'.Traced s (readOn (b.connAt h) s (b.journal ++ later))
      (queuedOn (b.connAt h) s (b.journal ++ later))) :
    Flow { b with wtSessions := b.wtSessions.insert h w', journal := b.journal ++ later }
      tail batch := by
  -- inputs hand nothing to the dispatcher, and they are of one connection
  have hinput : ∀ ev ∈ later, ev.isInput = true := by
    rw [hlater]
    exact fun ev hev => isInput_of_mem_inputs hev
  have hconn : ∀ ev ∈ later, ev.conn = b.connAt h := by
    rw [hlater]
    exact fun ev hev => conn_of_mem_inputs hev
  have hchunks : ∀ c, chunksOf c later = [] := by
    intro c
    refine flatMap_eq_nil_iff.2 fun ev hev => ?_
    have := hinput ev hev
    cases ev <;> simp_all [Ev.isInput, Ev.chunkOf]
  have hconsumed : ∀ c, consumedOf c later = [] := by
    intro c
    refine flatMap_eq_nil_iff.2 fun ev hev => ?_
    have := hinput ev hev
    cases ev <;> simp_all [Ev.isInput, Ev.consumedOf]
  have hother : ∀ c, b.connAt h ≠ c → queuedOf c later = [] ∧
      ∀ sid, readOn c sid later = [] ∧ queuedOn c sid later = [] := fun c hc =>
    (nothing_of_absent fun ev hev => (hconn ev hev).trans_ne hc).2.2
  refine ⟨?_, ?_, ?_, ?_, ?_, ?_, ?_, ?_, ?_, ?_⟩
  · exact (liveSession_append_inputs hinput).trans hf.live
  · exact hf.guarded.append_inputs hinput
  · intro ev hev
    rcases mem_append.1 hev with hev | hev
    · exact hf.fresh ev hev
    · rw [hconn ev hev]
      exact le_rfl
  · intro k
    show chunksOf (b.connAt k) (b.journal ++ later) =
      consumedOf (b.connAt k) (b.journal ++ later) ++ tail k
    rw [chunksOf_append, consumedOf_append, hchunks, hconsumed, append_nil, append_nil]
    exact hf.current k
  · intro c hc
    show chunksOf c (b.journal ++ later) = consumedOf c (b.journal ++ later)
    rw [chunksOf_append, consumedOf_append, hchunks, hconsumed, append_nil, append_nil]
    exact hf.past c hc
  · intro c
    show chunksOf c (b.journal ++ later) ++ b.batchOf c batch <+: queuedOf c (b.journal ++ later)
    rw [chunksOf_append, hchunks, append_nil, queuedOf_append]
    exact (hf.handed c).trans (prefix_append _ _)
  · intro k v hv
    show queuedOf (b.connAt k) (b.journal ++ later) = chunksOf (b.connAt k) (b.journal ++ later) ++
      b.batchOf (b.connAt k) batch ++ v.feedbackQueue.flatten
    rw [chunksOf_append, hchunks, append_nil, queuedOf_append]
    rcases get?_insert_cases hv with ⟨rfl, rfl⟩ | ⟨hk, hv⟩
    · rw [hlater, queuedOf_inputs, hf.waiting k w hw, hqueues, flatten_append,
        append_assoc, append_assoc]
    · have hne : b.connAt h ≠ b.connAt k := fun heq => hk (connAt_inj.1 heq).symm
      rw [(hother _ hne).1, append_nil]
      exact hf.waiting k v hv
  · intro k v hv
    rcases get?_insert_cases hv with ⟨rfl, rfl⟩ | ⟨hk, hv⟩
    · exact hord
    · exact hf.ordered k v hv
  · intro k v hv s
    rcases get?_insert_cases hv with ⟨rfl, rfl⟩ | ⟨hk, hv⟩
    · exact htraced s
    · have hne : b.connAt h ≠ b.connAt k := fun heq => hk (connAt_inj.1 heq).symm
      obtain ⟨hread, hqueued⟩ := (hother _ hne).2 s
      show v.Traced s (readOn (b.connAt k) s (b.journal ++ later))
        (queuedOn (b.connAt k) s (b.journal ++ later))
      rw [readOn_append, queuedOn_append, hread, hqueued, append_nil, append_nil]
      exact hf.traced k v hv s
  · intro c s
    show queuedOn c s (b.journal ++ later) <:+: readOn c s (b.journal ++ later)
    by_cases hc : b.connAt h = c
    · subst hc
      exact (htraced s).piece
    · rw [readOn_append, queuedOn_append, ((hother _ hc).2 s).2, append_nil]
      exact (hf.piece c s).trans (prefix_append _ _).isInfix

theorem Flow.onReadable (hf : Flow b tail batch) (sid : StreamId) (bytes : Bytes) (fin : Bool)
    (outcome : ConnectOutcome) : Flow (b.onReadable h sid bytes fin outcome) tail batch := by
  cases hw : b.wtSessions.get? h with
  | none =>
    have hsame : b.onReadable h sid bytes fin outcome = b := by rw [Bridge.onReadable, hw]
    rw [hsame]
    exact hf
  | some w =>
    have hord := hf.ordered h w hw
    obtain ⟨more, hqueues, hself⟩ :=
      (hf.traced h w hw sid).onStreamReadable hord bytes fin outcome
    rw [onReadable_eq hw, newlyQueued_of_queues hqueues]
    refine hf.append_inputs hw hqueues
      ((accepts_onStreamReadable w sid bytes fin outcome).ordered hord) rfl
      fun s => ?_
    rw [readOn_append, queuedOn_append]
    by_cases hs : s = sid
    · subst hs
      rw [readOn_inputs, queuedOn_inputs]
      by_cases hclosed : s ∈ w.closed
      · simpa [hclosed] using hself
      · simpa [hclosed] using hself
    · rw [readOn_inputs_of_ne hs, queuedOn_inputs_of_ne hs, append_nil, append_nil]
      exact (hf.traced h w hw s).onStreamReadable_ne hord hs

theorem Flow.onReset (hf : Flow b tail batch) (sid : StreamId) :
    Flow (b.onReset h sid) tail batch := by
  have hsession : ∀ k v, (b.onReset h sid).wtSessions.get? k = some v →
      b.wtSessions.get? k = some v ∨
        ∃ w, b.wtSessions.get? k = some w ∧ v = w.onStreamReset sid := by
    intro k v hv
    rw [Bridge.onReset, get?_modify] at hv
    split_ifs at hv with hk
    · obtain ⟨w, hw, rfl⟩ := map_eq_some_iff.1 hv
      exact .inr ⟨w, hk ▸ hw, rfl⟩
    · exact .inl hv
  refine ⟨hf.live, hf.guarded, hf.fresh, hf.current, hf.past, hf.handed, fun k v hv => ?_,
    fun k v hv => ?_, fun k v hv s => ?_, hf.piece⟩
  · rcases hsession k v hv with hv | ⟨w, hw, rfl⟩
    · exact hf.waiting k v hv
    · exact hf.waiting k w hw
  · rcases hsession k v hv with hv | ⟨w, hw, rfl⟩
    · exact hf.ordered k v hv
    · exact still_onStreamReset.ordered (hf.ordered k w hw)
  · rcases hsession k v hv with hv | ⟨w, hw, rfl⟩
    · exact hf.traced k v hv s
    · have htraced := hf.traced k w hw s
      by_cases hs : s = sid
      · subst hs
        exact htraced.onStreamReset
      · exact htraced.of_sameAt (sameAt_onStreamReset hs) fun h => h

/-! ### Runs -/

theorem Flow.forget (hf : Flow b b.tails []) (h : Handle) :
    Flow (b.forgetSession h) (b.forgetSession h).tails [] := by
  rw [tails_forgetSession]
  exact hf.forgetSession rfl

theorem Flow.sweepCloseDeadlines (hf : Flow b b.tails []) (now : Instant) :
    Flow (b.sweepCloseDeadlines now) (b.sweepCloseDeadlines now).tails [] := by
  unfold Bridge.sweepCloseDeadlines
  generalize b.closeDeadlines.toList.filter (fun e => e.2.deadline ≤ now) = due
  induction due generalizing b with
  | nil => exact hf
  | cons e due ih => exact ih (hf.forget e.1)

/-- Every step of the bridge keeps `Flow`. -/
theorem Flow.step (hf : Flow b b.tails []) (op : BridgeOp) :
    Flow (b.step op) (b.step op).tails [] := by
  cases op with
  | armHello h now => exact hf.closeBy _ _
  | established h => exact hf.onConnectionEstablished
  | gone h => exact hf.forget h
  | revoked h now => exact (hf.forget h).closeBy _ _
  | readable h sid bytes fin outcome =>
    have htails : (b.onReadable h sid bytes fin outcome).tails = b.tails := by
      cases hw : b.wtSessions.get? h with
      | none => rw [Bridge.onReadable, hw]
      | some w =>
        rw [onReadable_eq hw]
        rfl
    show Flow (b.onReadable h sid bytes fin outcome) (b.onReadable h sid bytes fin outcome).tails []
    rw [htails]
    exact hf.onReadable sid bytes fin outcome
  | reset h sid => exact hf.onReset sid
  | sweep now => exact hf.sweepCloseDeadlines now
  | drain order clock => exact hf.drainFeedback order clock

theorem flow_init : Flow {} (tails {}) [] where
  live := rfl
  guarded := guarded_nil
  fresh := nofun
  current := fun _ => rfl
  past := fun _ _ => rfl
  handed := fun _ => prefix_rfl
  waiting := nofun
  ordered := nofun
  traced := nofun
  piece := fun _ _ => infix_rfl

/-- The state of the bridge after a run. -/
def Bridge.after (ops : List BridgeOp) : Bridge := run Bridge.step {} ops

theorem flow_after (ops : List BridgeOp) :
    Flow (after ops) (after ops).tails [] :=
  run_inv (I := fun b => Flow b b.tails []) (fun _ op _ hf => hf.step op) flow_init

end Ghostframe.Feedback
