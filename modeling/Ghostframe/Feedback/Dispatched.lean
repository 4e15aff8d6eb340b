import Ghostframe.Feedback.SplitReads

/-!
# What is dispatched for a connection

For a `Feed` that stays the live session, the messages dispatched at any time are the
first ones of its script, and all of them once the stream has been read and its queue
drained: neither the division into reads nor the other connections matter.

* `Steady`: the connection keeps to its script, is not forgotten, and stays live;
* `Heard`: the messages dispatched so far, and what the accumulator holds, are where the
  script has them; each step of the bridge keeps it;
* `feedback_confined`: only the live session is obeyed, bytes stay with their connection,
  and a steady connection is understood.
-/

namespace Ghostframe.Feedback

open Transport Bridge Dict Ev Feed List WebTransportServer
open Function (update update_self update_of_ne)

/-- The connection keeps to its script, is not forgotten, and is the live session from its
first HELLO on, as far as the journal goes. -/
structure Steady (f : Feed) (journal : List Ev) : Prop where
  streams : ∀ s accepted bytes, Ev.read f.conn s accepted bytes ∈ journal →
    s = f.connectStream ∨ s = f.sid ∧ accepted = true
  text : readOn f.conn f.sid journal <+: f.text
  remains : Ev.ended f.conn ∉ journal
  live : ∀ pre, pre <+: journal → ∀ raw caps, Ev.message f.conn raw (.hello caps) ∈ pre →
    liveSession pre = some f.conn

variable {journal : List Ev}

theorem Steady.of_prefix {f : Feed} {journal' : List Ev} (h : Steady f journal')
    (hpre : journal <+: journal') : Steady f journal := by
  refine ⟨fun s accepted bytes hmem => h.streams s accepted bytes (hpre.subset hmem), ?_,
    fun hmem => h.remains (hpre.subset hmem), fun pre hp => h.live pre (hp.trans hpre)⟩
  obtain ⟨later, rfl⟩ := hpre
  refine List.IsPrefix.trans ?_ h.text
  rw [readOn_append]
  exact prefix_append _ _

/-- The messages of `done` were dispatched, those of `rest` are to come. -/
structure Spoken (f : Feed) (journal : List Ev) (done rest : List (Bytes × FeedbackMsg)) :
    Prop where
  script : f.script = done ++ rest
  messages : messagesOf f.conn journal = done.map Prod.snd
  consumed : consumedOf f.conn journal = Feed.bytesOf done

/-- Less than one message. -/
def Short (rest : List (Bytes × FeedbackMsg)) (part : Bytes) : Prop :=
  part = [] ∨ ∃ e later, rest = e :: later ∧ part.length < e.1.length

/-- What is known of a steady connection; `own` while the message loop has its bytes. -/
structure Facts (f : Feed) (own : Bool) (b : Bridge) : Prop where
  skipped : queuedOf f.conn b.journal = (readOn f.conn f.sid b.journal).drop f.header.length
  present : readOn f.conn f.sid b.journal ≠ [] →
    b.connAt f.conn.handle = f.conn ∧ ∃ w, b.wtSessions.get? f.conn.handle = some w
  tracks : b.connAt f.conn.handle = f.conn → ∀ w, b.wtSessions.get? f.conn.handle = some w →
    Tracks f w (readOn f.conn f.sid b.journal) (queuedOf f.conn b.journal)
  spoken : ∃ done rest, Spoken f b.journal done rest ∧
    (own = false → b.connAt f.conn.handle = f.conn → Short rest (b.tails f.conn.handle))

/-- `Facts`, as long as the connection is steady. -/
def Heard (f : Feed) (own : Bool) (b : Bridge) : Prop := Steady f b.journal → Facts f own b

variable {f : Feed} {own : Bool} {b b' : Bridge} {tail : Handle → Bytes}
  {batch : List (Handle × Bytes)} {g h : Handle} {now : Instant}

/-! ### Steps that say nothing about the connection -/

/-- The event moves no byte and no message of the connection. -/
structure Quiet (f : Feed) (ev : Ev) : Prop where
  readOn : ev.readOn f.conn f.sid = []
  queuedOf : ev.queuedOf f.conn = []
  consumedOf : ev.consumedOf f.conn = []
  messageOf : ev.messageOf f.conn = []

theorem handle_ne (hne : b.connAt h ≠ f.conn) (hcur : b.connAt f.conn.handle = f.conn) :
    f.conn.handle ≠ h := by
  rintro rfl
  exact hne hcur

theorem quiet_of_ne {ev : Ev} (h : ev.conn ≠ f.conn) : Quiet f ev :=
  ⟨readOn_of_ne _ h, queuedOf_of_ne h, consumedOf_of_ne h, messageOf_of_ne h⟩

theorem Heard.skips (hh : Heard f own b) (later : List Ev) (hquiet : ∀ ev ∈ later, Quiet f ev)
    (hjournal : b'.journal = b.journal ++ later) (hepoch : b'.epoch = b.epoch)
    (hsession : b.connAt f.conn.handle = f.conn →
      b'.wtSessions.get? f.conn.handle = b.wtSessions.get? f.conn.handle)
    (htails : own = false → b.connAt f.conn.handle = f.conn →
      b'.tails f.conn.handle = b.tails f.conn.handle) : Heard f own b' := by
  intro hsteady
  rw [hjournal] at hsteady
  have hfacts := hh (hsteady.of_prefix (prefix_append _ _))
  have hconn : b'.connAt f.conn.handle = b.connAt f.conn.handle := by
    rw [connAt_congr hepoch]
  have hnone : ∀ {α : Type} (p : Ev → List α), (∀ ev, Quiet f ev → p ev = []) →
      (b.journal ++ later).flatMap p = b.journal.flatMap p := by
    intro α p hp
    rw [flatMap_append, flatMap_eq_nil_iff.2 fun ev hev => hp ev (hquiet ev hev),
      append_nil]
  have hread : readOn f.conn f.sid (b.journal ++ later) = readOn f.conn f.sid b.journal :=
    hnone _ fun ev hev => hev.readOn
  have hqueued : queuedOf f.conn (b.journal ++ later) = queuedOf f.conn b.journal :=
    hnone _ fun ev hev => hev.queuedOf
  refine ⟨?_, fun hne => ?_, fun hcur w hw => ?_, ?_⟩
  · rw [hjournal, hread, hqueued]
    exact hfacts.skipped
  · rw [hjournal, hread] at hne
    obtain ⟨hcur, w, hw⟩ := hfacts.present hne
    exact ⟨hconn.trans hcur, w, (hsession hcur).trans hw⟩
  · rw [hconn] at hcur
    rw [hjournal, hread, hqueued]
    exact hfacts.tracks hcur w ((hsession hcur).symm.trans hw)
  · obtain ⟨done, rest, hspoken, hshort⟩ := hfacts.spoken
    rw [hjournal]
    refine ⟨done, rest, ⟨hspoken.script, ?_, ?_⟩, fun hown hcur => ?_⟩
    · exact (hnone _ fun ev hev => hev.messageOf).trans hspoken.messages
    · exact (hnone _ fun ev hev => hev.consumedOf).trans hspoken.consumed
    · rw [hconn] at hcur
      rw [htails hown hcur]
      exact hshort hown hcur

theorem Heard.skip (hh : Heard f own b) (ev : Ev) (hquiet : Quiet f ev)
    (hjournal : b'.journal = b.journal ++ [ev]) (hepoch : b'.epoch = b.epoch)
    (hsession : b.connAt f.conn.handle = f.conn →
      b'.wtSessions.get? f.conn.handle = b.wtSessions.get? f.conn.handle)
    (htails : own = false → b.connAt f.conn.handle = f.conn →
      b'.tails f.conn.handle = b.tails f.conn.handle) : Heard f own b' := by
  refine hh.skips [ev] (fun e he => ?_) hjournal hepoch hsession htails
  rw [mem_singleton.1 he]
  exact hquiet

theorem Heard.congr (hh : Heard f own b) (hjournal : b'.journal = b.journal)
    (hepoch : b'.epoch = b.epoch)
    (hsession : b'.wtSessions.get? f.conn.handle = b.wtSessions.get? f.conn.handle)
    (htails : own = false → b.connAt f.conn.handle = f.conn →
      b'.tails f.conn.handle = b.tails f.conn.handle) : Heard f own b' :=
  hh.skips [] (fun _ hev => absurd hev not_mem_nil)
    (hjournal.trans (append_nil _).symm) hepoch (fun _ => hsession) htails

/-- Forgetting a session: either it is another, or the connection is not steady. -/
theorem Heard.forgetSession (hh : Heard f own b) : Heard f own (b.forgetSession g) := by
  by_cases hg : b.connAt g = f.conn
  · intro hsteady
    refine absurd ?_ hsteady.remains
    show ended f.conn ∈ (b.dropRecvBuf g).journal ++ [.ended (b.connAt g)]
    rw [hg]
    exact mem_append_right _ (mem_singleton_self _)
  · have hdrop : Heard f own (b.dropRecvBuf g) := by
      refine hh.skip (.dropped (b.connAt g) (b.tails g)) (quiet_of_ne hg) rfl rfl
        (fun _ => rfl) fun _ hcur => ?_
      show ((b.feedbackRecvBufs.erase g).get? f.conn.handle).getD [] = _
      rw [get?_erase_ne _ (handle_ne hg hcur)]
      rfl
    exact hdrop.skip (.ended (b.connAt g)) (quiet_of_ne hg) rfl rfl
      (fun hcur => get?_erase_ne _ (handle_ne hg hcur)) fun _ _ => rfl

theorem Heard.closeBy (hh : Heard f own b) (deadline : Instant) (code : CloseCode) :
    Heard f own (b.closeBy g deadline code) :=
  hh.congr rfl rfl rfl fun _ _ => rfl

theorem Heard.applyHello (hh : Heard f own b) (caps : ClientCapabilities) :
    Heard f own (b.applyHello h now caps) := by
  have hlive : Heard f own (b.becomeLive h now caps) :=
    hh.skip (.took (b.connAt h)) ⟨rfl, rfl, rfl, rfl⟩ rfl rfl (fun _ => rfl) fun _ _ => rfl
  rcases applyHello_cases b h now caps with heq | heq | heq | ⟨incumbent, -, -, heq⟩
  · rw [heq]
    exact hh
  · rw [heq]
    exact hh.closeBy _ _
  · rw [heq]
    exact hlive
  · rw [heq]
    exact hlive.forgetSession.closeBy _ _

/-! ### The chunks of other connections -/

theorem Heard.log (hh : Heard f own b) {ev : Ev} (hquiet : Quiet f ev) : Heard f own (b.log ev) :=
  hh.skip ev hquiet rfl rfl (fun _ => rfl) fun _ _ => rfl

variable {msg : Option FeedbackMsg}

theorem Heard.handle_other (hh : Heard f own b) (hne : b.connAt h ≠ f.conn) {raw : Bytes} :
    Heard f own (b.handle h now raw msg) := by
  cases msg with
  | none => exact hh.log (quiet_of_ne hne)
  | some m =>
    cases m with
    | hello caps => exact (hh.applyHello caps).log (quiet_of_ne hne)
    | _ => exact hh.log (quiet_of_ne hne)

theorem epoch_handle {raw : Bytes} :
    (b.handle h now raw msg).epoch = b.epoch := by
  cases msg with
  | none => rfl
  | some m =>
    cases m with
    | hello caps => exact epoch_applyHello caps
    | _ => rfl

theorem epoch_dispatchLoop {fuel : ℕ} {buf : Bytes} :
    (dispatchLoop h now fuel b buf).1.epoch = b.epoch := by
  induction fuel generalizing b buf with
  | zero => rfl
  | succ fuel ih =>
    rcases dispatchLoop_succ_cases h now fuel b buf with
      ⟨-, heq⟩ | ⟨-, -, heq⟩ | ⟨-, -, heq⟩ | ⟨msg, n, -, -, -, heq⟩
    · rw [heq]
    · rw [heq]
      rfl
    · rw [heq]
    · rw [heq, ih, epoch_handle]

theorem Heard.dispatchLoop_other {fuel : ℕ} {buf : Bytes} (hh : Heard f own b)
    (hne : b.connAt h ≠ f.conn) : Heard f own (dispatchLoop h now fuel b buf).1 := by
  induction fuel generalizing b buf with
  | zero => exact hh
  | succ fuel ih =>
    rcases dispatchLoop_succ_cases h now fuel b buf with
      ⟨-, heq⟩ | ⟨-, -, heq⟩ | ⟨-, -, heq⟩ | ⟨msg, n, -, -, -, heq⟩
    · rw [heq]
      exact hh
    · rw [heq]
      exact hh.log (quiet_of_ne hne)
    · rw [heq]
      exact hh
    · rw [heq]
      refine ih (hh.handle_other hne) ?_
      rw [connAt_congr epoch_handle]
      exact hne

variable {data : Bytes}

theorem Heard.openChunk_other (hh : Heard f own b) (hne : b.connAt h ≠ f.conn) :
    Heard f own (b.openChunk h data) := by
  refine hh.skip (.chunk (b.connAt h) data) ⟨rfl, rfl, rfl, rfl⟩ rfl rfl (fun _ => rfl)
    fun _ hcur => ?_
  show ((b.feedbackRecvBufs.erase h).get? f.conn.handle).getD [] = _
  rw [get?_erase_ne _ (handle_ne hne hcur)]
  rfl

theorem Heard.dispatchFeedbackBytes_other (hh : Heard f own b)
    (hne : b.connAt h ≠ f.conn) : Heard f own (b.dispatchFeedbackBytes h now data) := by
  have hloop : Heard f own (b.looped h now data).1 :=
    (hh.openChunk_other hne).dispatchLoop_other hne
  have hepoch : (b.looped h now data).1.epoch = b.epoch := epoch_dispatchLoop
  rcases dispatchFeedbackBytes_cases b h now data with ⟨-, heq⟩ | ⟨part, -, heq⟩
  · rw [heq]
    exact hloop
  · rw [heq]
    refine hloop.congr rfl rfl rfl fun _ hcur => ?_
    rw [connAt_congr hepoch] at hcur
    show (((b.looped h now data).1.feedbackRecvBufs.insert h part).get? f.conn.handle).getD [] = _
    rw [get?_insert_ne _ _ (handle_ne hne hcur)]
    rfl

/-! ### The chunks of the connection itself -/

/-- What a buffer that follows the script has at its front. -/
theorem front_of_prefix {rest : List (Bytes × FeedbackMsg)} {buf : Bytes}
    (hwire : ∀ e ∈ rest, IsWire e.1 e.2) (hpre : buf <+: bytesOf rest) (hne : buf ≠ []) :
    ∃ e later, rest = e :: later ∧
      (buf.length < e.1.length ∧ nextMessage buf = .wait ∨
        ∃ more, buf = e.1 ++ more ∧ nextMessage buf = .take (some e.2) e.1.length) := by
  cases rest with
  | nil => exact absurd (prefix_nil.1 hpre) hne
  | cons e later =>
    have hw : IsWire e.1 e.2 := hwire e mem_cons_self
    refine ⟨e, later, rfl, ?_⟩
    rw [bytesOf_cons] at hpre
    by_cases hlt : buf.length < e.1.length
    · have hpart : buf <+: e.1 :=
        prefix_of_prefix_length_le hpre (prefix_append _ _) hlt.le
      exact .inl ⟨hlt, nextMessage_of_part hw hpart hne hlt⟩
    · have hfull : e.1 <+: buf :=
        prefix_of_prefix_length_le (prefix_append _ _) hpre (by omega)
      obtain ⟨more, rfl⟩ := hfull
      exact .inr ⟨more, rfl, nextMessage_append_of_isWire hw more⟩

section Own

variable {done rest : List (Bytes × FeedbackMsg)} {buf : Bytes}

/-- What the connection has at hand follows what was dispatched. -/
theorem Facts.at_hand (hfacts : Facts f own b) (hsteady : Steady f b.journal)
    (hflow : Flow b tail batch) (hcur : b.connAt f.conn.handle = f.conn)
    (hspoken : Spoken f b.journal done rest) : tail f.conn.handle <+: bytesOf rest := by
  have hchunks := hflow.current f.conn.handle
  rw [hcur, hspoken.consumed] at hchunks
  have hscript : bytesOf f.script = bytesOf done ++ bytesOf rest := by
    rw [hspoken.script, bytesOf_append]
  have htext : f.text.drop f.header.length = bytesOf f.script := drop_left
  have hpre : bytesOf done ++ tail f.conn.handle <+: bytesOf done ++ bytesOf rest :=
    calc bytesOf done ++ tail f.conn.handle
        <+: bytesOf done ++ tail f.conn.handle ++ b.batchOf f.conn batch :=
          prefix_append _ _
      _ <+: queuedOf f.conn b.journal := hchunks ▸ hflow.handed f.conn
      _ = (readOn f.conn f.sid b.journal).drop f.header.length := hfacts.skipped
      _ <+: f.text.drop f.header.length := hsteady.text.drop _
      _ = bytesOf done ++ bytesOf rest := htext.trans hscript
  exact (prefix_append_right_inj _).1 hpre

/-- The connection is never refused: its first message is a HELLO, and from then on it is
the live session. -/
theorem Facts.passes_gate (hfacts : Facts f own b) (hsteady : Steady f b.journal)
    (hflow : Flow b tail batch) (hcur : b.connAt f.conn.handle = f.conn)
    (hspoken : Spoken f b.journal done rest) (hne : tail f.conn.handle ≠ []) :
    byteAt (tail f.conn.handle) 0 = helloMsgType ∨ b.isLive f.conn.handle = true := by
  cases done with
  | nil =>
    have hpre := hfacts.at_hand hsteady hflow hcur hspoken
    have hall : rest = f.script := hspoken.script.symm
    rw [hall] at hpre
    exact .inl (f.byteAt_zero_script hpre hne)
  | cons e done =>
    obtain ⟨raw, caps, later, hscript⟩ := f.hello
    have he : e = (raw, .hello caps) := by
      have := hspoken.script
      rw [hscript, cons_append] at this
      exact (List.cons.inj this).1.symm
    have hmem : FeedbackMsg.hello caps ∈ messagesOf f.conn b.journal := by
      rw [hspoken.messages, he]
      exact mem_cons_self
    obtain ⟨raw', hev⟩ := mem_messagesOf hmem
    have hlive := hsteady.live b.journal prefix_rfl raw' caps hev
    rw [hflow.live] at hlive
    obtain ⟨k, hlast, hk⟩ := Option.map_eq_some_iff.1 hlive
    have hkh : k = f.conn.handle := congrArg Conn.handle hk
    exact .inr (decide_eq_true (hkh ▸ hlast))

theorem Spoken.wire (hspoken : Spoken f b.journal done rest) : ∀ e ∈ rest, IsWire e.1 e.2 := by
  intro e he
  refine f.wire e ?_
  rw [hspoken.script]
  exact mem_append_right _ he

/-- What is at the front of the connection's buffer. -/
theorem Facts.front (hfacts : Facts f own b) (hsteady : Steady f b.journal)
    (hflow : Flow b (update tail f.conn.handle buf) batch)
    (hcur : b.connAt f.conn.handle = f.conn) (hspoken : Spoken f b.journal done rest)
    (hne : buf ≠ []) :
    ∃ e later, rest = e :: later ∧
      (buf.length < e.1.length ∧ nextMessage buf = .wait ∨
        ∃ more, buf = e.1 ++ more ∧ nextMessage buf = .take (some e.2) e.1.length) := by
  have hpre := hfacts.at_hand hsteady hflow hcur hspoken
  rw [update_self] at hpre
  exact front_of_prefix hspoken.wire hpre hne

/-- No message of the script is refused by its decoder or discarded. -/
theorem Facts.front_cases (hfacts : Facts f own b) (hsteady : Steady f b.journal)
    (hflow : Flow b (update tail f.conn.handle buf) batch)
    (hcur : b.connAt f.conn.handle = f.conn) (hne : buf ≠ []) :
    nextMessage buf = .wait ∨ ∃ m n, nextMessage buf = .take (some m) n := by
  obtain ⟨done, rest, hspoken, -⟩ := hfacts.spoken
  obtain ⟨e, -, -, ⟨-, hwait⟩ | ⟨-, -, htake⟩⟩ := hfacts.front hsteady hflow hcur hspoken hne
  · exact .inl hwait
  · exact .inr ⟨_, _, htake⟩

/-- The next message of the script is dispatched. -/
theorem Heard.log_message {m : FeedbackMsg} {n : ℕ} (hh : Heard f true b)
    (hflow : Flow b (update tail f.conn.handle buf) batch)
    (hcur : b.connAt f.conn.handle = f.conn) (hne : buf ≠ [])
    (hfront : nextMessage buf = .take (some m) n) :
    Heard f true (b.log (.message f.conn (buf.take n) m)) := by
  intro hsteady
  have hsteady' : Steady f b.journal := hsteady.of_prefix (prefix_append _ _)
  have hfacts := hh hsteady'
  obtain ⟨done, rest, hspoken, -⟩ := hfacts.spoken
  obtain ⟨e, later, rfl, ⟨-, hwait⟩ | ⟨more, hbuf, htake⟩⟩ :=
    hfacts.front hsteady' hflow hcur hspoken hne
  · rw [hwait] at hfront
    cases hfront
  · rw [htake] at hfront
    obtain ⟨hm, rfl⟩ := Front.take.inj hfront
    obtain rfl := Option.some.inj hm
    have hraw : buf.take e.1.length = e.1 := by rw [hbuf, take_left]
    have hread : readOn f.conn f.sid (b.log (.message f.conn (buf.take e.1.length) e.2)).journal =
        readOn f.conn f.sid b.journal := by
      simp [Bridge.log, Ev.readOn]
    have hqueued : queuedOf f.conn (b.log (.message f.conn (buf.take e.1.length) e.2)).journal =
        queuedOf f.conn b.journal := by
      simp [Bridge.log, Ev.queuedOf]
    refine ⟨by rw [hread, hqueued]; exact hfacts.skipped, ?_, ?_, done ++ [e], later, ⟨?_, ?_, ?_⟩,
      fun h => absurd h (by decide)⟩
    · rw [hread]
      exact hfacts.present
    · rw [hread, hqueued]
      exact hfacts.tracks
    · rw [hspoken.script, append_assoc]
      rfl
    · simp [Bridge.log, Ev.messageOf, hspoken.messages]
    · simp [Bridge.log, Ev.consumedOf, hspoken.consumed, hraw, bytesOf]

/-- The handler of the next message. -/
theorem Heard.handle_own {n : ℕ} (hh : Heard f true b)
    (hflow : Flow b (update b.tails f.conn.handle buf) batch)
    (hcur : b.connAt f.conn.handle = f.conn) (hne : buf ≠ [])
    (hfront : nextMessage buf = .take msg n) :
    Heard f true (b.handle f.conn.handle now (buf.take n) msg) := by
  cases msg with
  | none =>
    intro hsteady
    have hsteady' : Steady f b.journal := hsteady.of_prefix (prefix_append _ _)
    rcases (hh hsteady').front_cases hsteady' hflow hcur hne with h | ⟨_, _, h⟩ <;>
      rw [h] at hfront <;> cases hfront
  | some m =>
    cases m with
    | hello caps =>
      have hcur' : (b.applyHello f.conn.handle now caps).connAt f.conn.handle = f.conn := by
        rw [connAt_congr (epoch_applyHello caps)]
        exact hcur
      rw [handle, hcur]
      exact (hh.applyHello caps).log_message (hflow.applyHello caps) hcur' hne hfront
    | _ =>
      show Heard f true (b.log (.message (b.connAt f.conn.handle) (buf.take n) _))
      rw [hcur]
      exact hh.log_message hflow hcur hne hfront

/-- The message loop over the connection's own bytes stops in front of less than one
message. -/
theorem Heard.dispatchLoop_own {fuel : ℕ} (hfuel : buf.length < fuel)
    (hnone : b.feedbackRecvBufs.get? f.conn.handle = none)
    (hflow : Flow b (update b.tails f.conn.handle buf) batch)
    (hcur : b.connAt f.conn.handle = f.conn) (hh : Heard f true b) :
    let r := dispatchLoop f.conn.handle now fuel b buf
    Heard f true r.1 ∧ (Steady f r.1.journal → ∀ done rest, Spoken f r.1.journal done rest →
      Short rest (r.2.getD [])) := by
  dsimp only
  induction fuel generalizing b buf with
  | zero => omega
  | succ fuel ih =>
    rcases dispatchLoop_succ_cases f.conn.handle now fuel b buf with
      ⟨rfl, heq⟩ | ⟨hne, hwhy, heq⟩ | ⟨hne, hwait, heq⟩ | ⟨msg, n, hne, hfront, hpass, heq⟩
    · rw [heq]
      exact ⟨hh, fun _ done rest _ => .inl rfl⟩
    · -- nothing of the connection is discarded
      have habsurd : ¬ Steady f (b.log (.dropped (b.connAt f.conn.handle) buf)).journal := by
        intro hsteady
        have hsteady' : Steady f b.journal := hsteady.of_prefix (prefix_append _ _)
        have hfacts := hh hsteady'
        obtain ⟨done, rest, hspoken, -⟩ := hfacts.spoken
        rcases hwhy with ⟨htype, hlive⟩ | hdiscard
        · have hgate := hfacts.passes_gate hsteady' hflow hcur hspoken
          rw [update_self] at hgate
          rcases hgate hne with h | h
          · exact htype h
          · rw [h] at hlive
            cases hlive
        · rcases hfacts.front_cases hsteady' hflow hcur hne with h | ⟨_, _, h⟩ <;>
            rw [h] at hdiscard <;> cases hdiscard
      rw [heq]
      exact ⟨fun hsteady => absurd hsteady habsurd, fun hsteady => absurd hsteady habsurd⟩
    · rw [heq]
      refine ⟨hh, fun hsteady done rest hspoken => .inr ?_⟩
      obtain ⟨e, later, hrest, ⟨hlt, -⟩ | ⟨more, -, htake⟩⟩ :=
        (hh hsteady).front hsteady hflow hcur hspoken hne
      · exact ⟨e, later, hrest, hlt⟩
      · rw [htake] at hwait
        cases hwait
    · rw [heq]
      obtain ⟨hpos, hle, -⟩ := nextMessage_taken hfront
      refine ih ?_ (get?_recvBufs_handle hnone) ?_ ?_ (hh.handle_own hflow hcur hne hfront)
      · rw [length_drop]
        omega
      · exact hflow.handle (take_append_drop n buf).symm (isLive_of_front hfront hpass)
      · rw [connAt_congr epoch_handle]
        exact hcur

theorem Heard.dispatchFeedbackBytes_own (hh : Heard f false b)
    (hflow : Flow b b.tails ((f.conn.handle, data) :: batch))
    (hcur : b.connAt f.conn.handle = f.conn) :
    Heard f false (b.dispatchFeedbackBytes f.conn.handle now data) := by
  have hopen : Heard f true (b.openChunk f.conn.handle data) := by
    have hown : Heard f true b := by
      intro hsteady
      obtain ⟨hskipped, hpresent, htracks, done, rest, hspoken, -⟩ := hh hsteady
      exact ⟨hskipped, hpresent, htracks, done, rest, hspoken, fun h => absurd h (by decide)⟩
    exact hown.skip (.chunk (b.connAt f.conn.handle) data) ⟨rfl, rfl, rfl, rfl⟩ rfl rfl
      (fun _ => rfl) fun h => absurd h (by decide)
  have hnone : (b.openChunk f.conn.handle data).feedbackRecvBufs.get? f.conn.handle = none :=
    get?_erase_self _ _
  let r := b.looped f.conn.handle now data
  have hloop : Heard f true r.1 ∧ (Steady f r.1.journal → ∀ done rest,
      Spoken f r.1.journal done rest → Short rest (r.2.getD [])) :=
    hopen.dispatchLoop_own (Nat.lt_succ_self _) hnone hflow.openChunk hcur
  have hgone : r.1.feedbackRecvBufs.get? f.conn.handle = none := hflow.looped.1
  -- what the loop retains is what the accumulator then holds
  have htail : (b.dispatchFeedbackBytes f.conn.handle now data).tails f.conn.handle = r.2.getD [] ∧
      (b.dispatchFeedbackBytes f.conn.handle now data).journal = r.1.journal ∧
      Heard f true (b.dispatchFeedbackBytes f.conn.handle now data) := by
    rcases dispatchFeedbackBytes_cases b f.conn.handle now data with
      ⟨hpart, heq⟩ | ⟨part, hpart, heq⟩
    · rw [heq, hpart, Bridge.tails, hgone]
      exact ⟨rfl, rfl, hloop.1⟩
    · rw [heq, hpart]
      refine ⟨?_, rfl, hloop.1.congr rfl rfl rfl fun h => absurd h (by decide)⟩
      show ((r.1.feedbackRecvBufs.insert f.conn.handle part).get? f.conn.handle).getD [] = _
      rw [get?_insert_self]
  obtain ⟨htails, hjournal, hown⟩ := htail
  intro hsteady
  obtain ⟨hskipped, hpresent, htracks, done, rest, hspoken, -⟩ := hown hsteady
  refine ⟨hskipped, hpresent, htracks, done, rest, hspoken, fun _ _ => ?_⟩
  rw [htails]
  exact hloop.2 (hjournal ▸ hsteady) done rest (hjournal ▸ hspoken)

end Own

/-! ### The steps of the bridge -/

theorem Heard.dispatchFeedbackBytes (hh : Heard f false b)
    (hflow : Flow b b.tails ((h, data) :: batch)) :
    Heard f false (b.dispatchFeedbackBytes h now data) := by
  by_cases hne : b.connAt h = f.conn
  · have hhandle : h = f.conn.handle := congrArg Conn.handle hne
    subst hhandle
    exact hh.dispatchFeedbackBytes_own hflow hne
  · exact hh.dispatchFeedbackBytes_other hne

theorem Heard.dispatchBatch {clock : ℕ → Instant} {k : ℕ} (hh : Heard f false b)
    (hflow : Flow b b.tails batch) : Heard f false (Bridge.dispatchBatch clock k batch b) := by
  induction batch generalizing b k with
  | nil => exact hh
  | cons e batch ih => exact ih (hh.dispatchFeedbackBytes hflow) hflow.dispatchFeedbackBytes

variable {w : WebTransportServer}

theorem Tracks.drained {got queued : Bytes} (ht : Tracks f w got queued) :
    Tracks f { w with feedbackQueue := [] } got queued :=
  ⟨ht.skipped, ht.unaccepted, ht.accepted, ht.kept, ht.stripped, ht.buffered⟩

variable {acc : Bridge × List (Handle × Bytes)}

/-- Collecting a queue changes nothing else of a session. -/
theorem Heard.collectOne (hh : Heard f false acc.1) :
    Heard f false (Bridge.collectOne acc h).1 := by
  unfold Bridge.collectOne
  cases hw : acc.1.wtSessions.get? h with
  | none => exact hh
  | some w =>
    intro hsteady
    obtain ⟨hskipped, hpresent, htracks, hspoken⟩ := hh hsteady
    refine ⟨hskipped, fun hne => ?_, fun hcur v hv => ?_, hspoken⟩
    · obtain ⟨hcur, v, hv⟩ := hpresent hne
      refine ⟨hcur, ?_⟩
      show ∃ v, (acc.1.wtSessions.insert h { w with feedbackQueue := [] }).get? _ = some v
      rw [get?_insert]
      split_ifs
      · exact ⟨_, rfl⟩
      · exact ⟨v, hv⟩
    · replace hv : (acc.1.wtSessions.insert h { w with feedbackQueue := [] }).get?
        f.conn.handle = some v := hv
      rw [get?_insert] at hv
      split_ifs at hv with hk
      · obtain rfl := Option.some.inj hv
        exact (htracks hcur w (hk ▸ hw)).drained
      · exact htracks hcur v hv

theorem Heard.collect (order : List Handle)
    (hh : Heard f false acc.1) : Heard f false (order.foldl Bridge.collectOne acc).1 := by
  induction order generalizing acc with
  | nil => exact hh
  | cons h order ih => exact ih hh.collectOne

theorem Heard.drainFeedback (hh : Heard f false b) (hflow : Flow b b.tails [])
    (order : List Handle) (clock : ℕ → Instant) : Heard f false (b.drainFeedback order clock) := by
  let r := order.foldl Bridge.collectOne (b, [])
  have hcollect : Heard f false r.1 := Heard.collect order hh
  have hflow' : Flow r.1 r.1.tails r.2 := Flow.collect order hflow
  exact hcollect.dispatchBatch hflow'

/-! ### A readable stream, a reset, a new connection -/

/-- One stream of the connection itself was read. -/
theorem Heard.append_inputs (hh : Heard f false b) (hcur : b.connAt f.conn.handle = f.conn)
    {later : List Ev} {w' : WebTransportServer} (hinput : ∀ ev ∈ later, ev.isInput = true)
    (htracks : Steady f (b.journal ++ later) → Facts f false b →
      Tracks f w' (readOn f.conn f.sid (b.journal ++ later))
        (queuedOf f.conn (b.journal ++ later))) :
    Heard f false { b with
      wtSessions := b.wtSessions.insert f.conn.handle w', journal := b.journal ++ later } := by
  intro hsteady
  have hfacts := hh (hsteady.of_prefix (prefix_append _ _))
  have ht := htracks hsteady hfacts
  refine ⟨ht.skipped, fun _ => ⟨hcur, w', get?_insert_self _ _ _⟩, fun _ v hv => ?_, ?_⟩
  · obtain rfl := Option.some.inj ((get?_insert_self _ _ _).symm.trans hv)
    exact ht
  · obtain ⟨done, rest, hspoken, hshort⟩ := hfacts.spoken
    refine ⟨done, rest, ⟨hspoken.script, ?_, ?_⟩, hshort⟩
    · show messagesOf f.conn (b.journal ++ later) = _
      have hnone : messagesOf f.conn later = [] := by
        refine flatMap_eq_nil_iff.2 fun ev hev => ?_
        have := hinput ev hev
        cases ev <;> simp_all [Ev.isInput, Ev.messageOf]
      rw [messagesOf_append, hnone, append_nil, hspoken.messages]
    · show consumedOf f.conn (b.journal ++ later) = _
      have hnone : consumedOf f.conn later = [] := by
        refine flatMap_eq_nil_iff.2 fun ev hev => ?_
        have := hinput ev hev
        cases ev <;> simp_all [Ev.isInput, Ev.consumedOf]
      rw [consumedOf_append, hnone, append_nil, hspoken.consumed]

/-- Nothing happens to a stream that has ended, beyond what a reset of it does. -/
theorem onStreamReadable_of_closed {s : StreamId} {bytes : Bytes}
    {fin : Bool} {outcome : ConnectOutcome} (hclosed : s ∈ w.closed) :
    w.onStreamReadable s bytes fin outcome = w.onStreamReset s := by
  have hsame : w.close s true = w := by
    rw [close, if_pos rfl, Finset.insert_eq_of_mem hclosed]
  rw [onStreamReset, hsame]
  exact if_pos hclosed

/-- A readable stream of a steady connection. -/
theorem Tracks.read {s : StreamId} {bytes : Bytes} {fin : Bool} {outcome : ConnectOutcome}
    (ht : Tracks f w (readOn f.conn f.sid journal) (queuedOf f.conn journal)) {later : List Ev}
    (hlater : later = inputs f.conn s (s ∈ w.closed) w.connected bytes
      (newlyQueued w (w.onStreamReadable s bytes fin outcome)))
    (hsteady : Steady f (journal ++ later)) :
    Tracks f (w.onStreamReadable s bytes fin outcome) (readOn f.conn f.sid (journal ++ later))
      (queuedOf f.conn (journal ++ later)) := by
  subst hlater
  have htext := hsteady.text
  rw [readOn_append] at htext ⊢
  rw [queuedOf_append, queuedOf_inputs]
  by_cases hclosed : s ∈ w.closed
  -- a closed stream is reset, and nothing is read of it
  · have hnothing : readOn f.conn f.sid (inputs f.conn s (s ∈ w.closed) w.connected bytes
        (newlyQueued w (w.onStreamReadable s bytes fin outcome))) = [] := by
      by_cases hs : f.sid = s
      · subst hs
        rw [readOn_inputs, if_pos (decide_eq_true hclosed)]
      · exact readOn_inputs_of_ne hs
    have hqueues : WebTransportServer.Queues w (w.onStreamReset s) [] :=
      WebTransportServer.Queues.same rfl
    rw [hnothing, onStreamReadable_of_closed hclosed,
      newlyQueued_of_queues hqueues, flatten_nil, append_nil,
      append_nil]
    exact ht.onStreamReset s
  · have hread : Ev.read f.conn s w.connected bytes ∈ journal ++ inputs f.conn s (s ∈ w.closed)
        w.connected bytes (newlyQueued w (w.onStreamReadable s bytes fin outcome)) := by
      simp [inputs, hclosed]
    -- it is the CONNECT stream or the feedback stream
    rcases hsteady.streams _ _ _ hread with rfl | ⟨rfl, hconn⟩
    · rw [readOn_inputs_of_ne f.distinct, newlyQueued_of_queues
        (ht.connectStream_read bytes fin outcome).1, flatten_nil, append_nil,
        append_nil]
      exact ht.onStreamReadable_connect
    · have hgot : (if f.sid ∈ w.closed then readOn f.conn f.sid journal
          else readOn f.conn f.sid journal ++ bytes) = readOn f.conn f.sid journal ++ bytes :=
        if_neg hclosed
      rw [readOn_inputs, if_neg (by simpa using hclosed)] at htext ⊢
      obtain ⟨more, hqueues, htracks⟩ := ht.onStreamReadable hconn (hgot ▸ htext)
      rw [newlyQueued_of_queues hqueues, ← hgot]
      exact htracks

theorem Heard.onReadable (hh : Heard f false b) (s : StreamId) (bytes : Bytes) (fin : Bool)
    (outcome : ConnectOutcome) : Heard f false (b.onReadable h s bytes fin outcome) := by
  cases hw : b.wtSessions.get? h with
  | none =>
    have hsame : b.onReadable h s bytes fin outcome = b := by rw [Bridge.onReadable, hw]
    rw [hsame]
    exact hh
  | some w =>
    rw [onReadable_eq hw]
    by_cases hc : b.connAt h = f.conn
    · obtain rfl : h = f.conn.handle := congrArg Conn.handle hc
      rw [hc]
      refine hh.append_inputs hc (fun ev hev => isInput_of_mem_inputs hev) fun hsteady hfacts => ?_
      exact (hfacts.tracks hc w hw).read rfl hsteady
    · refine hh.skips _ (fun ev hev => quiet_of_ne ?_) rfl rfl
        (fun hcur => get?_insert_ne _ _ (handle_ne hc hcur)) fun _ _ => rfl
      rw [conn_of_mem_inputs hev]
      exact hc

theorem Heard.onReset (hh : Heard f false b) (s : StreamId) : Heard f false (b.onReset h s) := by
  intro hsteady
  obtain ⟨hskipped, hpresent, htracks, hspoken⟩ := hh hsteady
  have hget : (b.onReset h s).wtSessions.get? f.conn.handle =
      if f.conn.handle = h then (b.wtSessions.get? h).map fun w => w.onStreamReset s
      else b.wtSessions.get? f.conn.handle := get?_modify _ _ _ _
  refine ⟨hskipped, fun hne => ?_, fun hcur v hv => ?_, hspoken⟩
  · obtain ⟨hcur, w, hw⟩ := hpresent hne
    refine ⟨hcur, ?_⟩
    rw [hget]
    split_ifs with hk
    · exact ⟨w.onStreamReset s, by rw [← hk, hw]; rfl⟩
    · exact ⟨w, hw⟩
  · rw [hget] at hv
    split_ifs at hv with hk
    · obtain ⟨w, hw, rfl⟩ := Option.map_eq_some_iff.1 hv
      exact (htracks hcur w (hk ▸ hw)).onStreamReset s
    · exact htracks hcur v hv

theorem tracks_new : Tracks f {} [] [] :=
  ⟨drop_nil.symm, fun _ => ⟨rfl, Finset.notMem_empty _, fun _ _ => rfl⟩, nofun,
    Finset.notMem_empty _, fun _ h => absurd h (Finset.notMem_empty _), fun _ _ => ⟨rfl, .inl rfl⟩⟩

/-- A connection is opened: the one that is watched, or another. -/
theorem Heard.opened (hh : Heard f false b) (hflow : Flow b tail batch)
    (hgone : b.wtSessions.get? h = none) (hempty : b'.tails h = [])
    (hjournal : b'.journal = b.journal ++ [.opened ⟨h, b.epoch h + 1⟩])
    (hepoch : b'.epoch = update b.epoch h (b.epoch h + 1))
    (hsessions : b'.wtSessions = b.wtSessions.insert h {})
    (htails : b'.tails = b.tails) : Heard f false b' := by
  intro hsteady
  rw [hjournal] at hsteady
  obtain ⟨hskipped, hpresent, htracks, done, rest, hspoken, hshort⟩ :=
    hh (hsteady.of_prefix (prefix_append _ _))
  have hold : f.conn.handle ≠ h → b'.connAt f.conn.handle = b.connAt f.conn.handle ∧
      b'.wtSessions.get? f.conn.handle = b.wtSessions.get? f.conn.handle := by
    intro hk
    rw [connAt, connAt, hepoch, update_of_ne hk, hsessions, get?_insert_ne _ _ hk]
    exact ⟨rfl, rfl⟩
  have hread : readOn f.conn f.sid b'.journal = readOn f.conn f.sid b.journal := by
    simp [hjournal, Ev.readOn]
  have hqueued : queuedOf f.conn b'.journal = queuedOf f.conn b.journal := by
    simp [hjournal, Ev.queuedOf]
  refine ⟨by rw [hread, hqueued]; exact hskipped, fun hne => ?_, fun hcur w hw => ?_, done, rest,
    ⟨hspoken.script, ?_, ?_⟩, fun hown hcur => ?_⟩
  · rw [hread] at hne
    obtain ⟨hcur, w, hw⟩ := hpresent hne
    have hk : f.conn.handle ≠ h := by
      intro hk
      rw [hk, hgone] at hw
      cases hw
    exact ⟨(hold hk).1.trans hcur, w, (hold hk).2.trans hw⟩
  · rw [hread, hqueued]
    by_cases hk : f.conn.handle = h
    · -- the session is new, and the journal knows nothing of the connection yet
      have hnew : f.conn = ⟨h, b.epoch h + 1⟩ := by
        rw [← hcur, connAt, hepoch, hk, update_self]
      have habsent : ∀ ev ∈ b.journal, ev.conn ≠ f.conn := by
        rw [hnew]
        exact hflow.absent_next
      obtain ⟨-, -, hnoQueue, hnoRead⟩ := nothing_of_absent habsent
      rw [hk, hsessions, get?_insert_self] at hw
      obtain rfl := Option.some.inj hw
      rw [(hnoRead _).1, hnoQueue]
      exact tracks_new
    · exact htracks ((hold hk).1.symm.trans hcur) w ((hold hk).2.symm.trans hw)
  · simp [hjournal, Ev.messageOf, hspoken.messages]
  · simp [hjournal, Ev.consumedOf, hspoken.consumed]
  · by_cases hk : f.conn.handle = h
    · rw [hk, hempty]
      exact .inl rfl
    · rw [htails]
      exact hshort hown ((hold hk).1.symm.trans hcur)

theorem Heard.onConnectionEstablished (hh : Heard f false b) (hflow : Flow b b.tails []) :
    Heard f false (b.onConnectionEstablished h) := by
  have hforget : Heard f false (b.forgetSession h) := hh.forgetSession
  refine hforget.opened (h := h) (hflow.forget h) (get?_erase_self _ _) ?_ ?_ rfl rfl rfl
  · show (b.forgetSession h).tails h = []
    rw [tails_forgetSession, update_self]
  · show (b.forgetSession h).journal ++
      [Ev.opened ⟨h, update b.epoch h (b.epoch h + 1) h⟩] = _
    rw [update_self]
    rfl

theorem Heard.sweepCloseDeadlines (hh : Heard f false b) (now : Instant) :
    Heard f false (b.sweepCloseDeadlines now) := by
  unfold Bridge.sweepCloseDeadlines
  generalize b.closeDeadlines.toList.filter (fun e => e.2.deadline ≤ now) = due
  induction due generalizing b with
  | nil => exact hh
  | cons e due ih => exact ih hh.forgetSession

theorem Heard.step (hh : Heard f false b) (hflow : Flow b b.tails []) (op : BridgeOp) :
    Heard f false (b.step op) := by
  cases op with
  | armHello h now => exact hh.closeBy _ _
  | established h => exact hh.onConnectionEstablished hflow
  | gone h => exact hh.forgetSession
  | revoked h now => exact hh.forgetSession.closeBy _ _
  | readable h sid bytes fin outcome => exact hh.onReadable sid bytes fin outcome
  | reset h sid => exact hh.onReset sid
  | sweep now => exact hh.sweepCloseDeadlines now
  | drain order clock => exact hh.drainFeedback hflow order clock

theorem heard_init : Heard f false {} := by
  intro _
  exact ⟨drop_nil.symm, fun h => absurd rfl h, nofun, [], f.script, ⟨rfl, rfl, rfl⟩,
    fun _ _ => .inl rfl⟩

theorem heard_after (f : Feed) (ops : List BridgeOp) : Heard f false (after ops) := by
  have hboth : Flow (after ops) (after ops).tails [] ∧
      Heard f false (after ops) :=
    run_inv (I := fun b => Flow b b.tails [] ∧ Heard f false b)
      (fun _ op _ h => ⟨h.1.step op, h.2.step h.1 op⟩) ⟨flow_init, heard_init⟩
  exact hboth.2

/-! ### Every run -/

theorem messagesOf_begins {ops : List BridgeOp} (hsteady : Steady f (after ops).journal) :
    messagesOf f.conn (after ops).journal <+: f.script.map Prod.snd := by
  obtain ⟨done, rest, hspoken, -⟩ := (heard_after f ops hsteady).spoken
  rw [hspoken.messages, hspoken.script, map_append]
  exact prefix_append _ _

/-- Once the stream has been read and its queue drained, every message was dispatched. -/
theorem messagesOf_eq {ops : List BridgeOp} (hsteady : Steady f (after ops).journal)
    (hread : readOn f.conn f.sid (after ops).journal = f.text)
    (hdrained : ∀ w, (after ops).wtSessions.get? f.conn.handle = some w →
      w.feedbackQueue = []) :
    messagesOf f.conn (after ops).journal = f.script.map Prod.snd := by
  have hfacts := heard_after f ops hsteady
  have hflow := flow_after ops
  obtain ⟨done, rest, hspoken, hshort⟩ := hfacts.spoken
  have hne : readOn f.conn f.sid (after ops).journal ≠ [] := by
    obtain ⟨raw, caps, later, hscript⟩ := f.hello
    have hpos := (f.wire (raw, .hello caps) (by rw [hscript]; simp)).length_pos
    rw [hread, text, hscript, bytesOf_cons]
    intro hnil
    have hraw : raw = [] := (append_eq_nil_iff.1 (append_eq_nil_iff.1 hnil).2).1
    simp [hraw] at hpos
  obtain ⟨hcur, w, hw⟩ := hfacts.present hne
  -- everything read was queued, handed over, and consumed up to the accumulator
  have hqueued : queuedOf f.conn (after ops).journal = bytesOf f.script := by
    rw [hfacts.skipped, hread]
    exact drop_left
  have hwaiting := hflow.waiting _ w hw
  have hcurrent := hflow.current f.conn.handle
  rw [hcur] at hwaiting hcurrent
  rw [hdrained w hw, hqueued, hcurrent, hspoken.consumed, hspoken.script,
    bytesOf_append] at hwaiting
  have htail : bytesOf rest = (after ops).tails f.conn.handle := by
    have : bytesOf done ++ bytesOf rest =
        bytesOf done ++ (after ops).tails f.conn.handle := by
      simpa [batchOf] using hwaiting
    exact append_cancel_left this
  -- what is left is less than one message, so there is no message left
  have hrest : rest = [] := by
    rcases hshort rfl hcur with hnil | ⟨e, later, hrest, hlt⟩
    · cases rest with
      | nil => rfl
      | cons e later =>
        have hpos := (hspoken.wire e mem_cons_self).length_pos
        have hlen := congrArg length (htail.trans hnil)
        rw [bytesOf_cons, length_append, length_nil] at hlen
        omega
    · have hlen := congrArg length htail
      rw [hrest, bytesOf_cons, length_append] at hlen
      omega
  rw [hspoken.messages, hspoken.script, hrest, append_nil]

/-- **Feedback is confined to the live session, stays with its connection, and does not
depend on how it was read.** In every run of the bridge, with any connections, chunks and
interleaving: a message other than HELLO is dispatched only for the connection that is live
at that moment; what is dispatched for a connection is, in order, what its own streams put
in its own queue, and that is a piece of what was read from each of them; and for a
connection that keeps to its script and stays live, the messages of the script are
dispatched, each once and in order, however its stream was divided into reads. -/
theorem feedback_confined (ops : List BridgeOp) :
    (∀ pre post c raw msg, (Bridge.after ops).journal = pre ++ .message c raw msg :: post →
      msg.isHello = false → liveSession pre = some c) ∧
    (∀ c, consumedOf c (Bridge.after ops).journal <+: queuedOf c (Bridge.after ops).journal) ∧
    (∀ c sid, queuedOn c sid (Bridge.after ops).journal <:+:
      readOn c sid (Bridge.after ops).journal) ∧
    (∀ f : Feed, Steady f (Bridge.after ops).journal →
      messagesOf f.conn (Bridge.after ops).journal <+: f.script.map Prod.snd ∧
      (readOn f.conn f.sid (Bridge.after ops).journal = f.text →
        (∀ w, (Bridge.after ops).wtSessions.get? f.conn.handle = some w → w.feedbackQueue = []) →
        messagesOf f.conn (Bridge.after ops).journal = f.script.map Prod.snd)) := by
  have hflow := flow_after ops
  refine ⟨hflow.guarded, fun c => ?_, hflow.piece, fun f hsteady => ⟨messagesOf_begins hsteady, ?_⟩⟩
  · have hhanded : chunksOf c (after ops).journal <+: queuedOf c (after ops).journal :=
      (prefix_append _ _).trans (hflow.handed c)
    refine List.IsPrefix.trans ?_ hhanded
    by_cases hcur : (after ops).connAt c.handle = c
    · have hcurrent := hflow.current c.handle
      rw [hcur] at hcurrent
      rw [hcurrent]
      exact prefix_append _ _
    · rw [hflow.past c hcur]
  · exact messagesOf_eq hsteady

theorem live_of_inits {c : Conn}
    (h : ∀ pre ∈ journal.inits, liveSession pre = some c ∨ messagesOf c pre = []) :
    ∀ pre, pre <+: journal → ∀ raw caps, message c raw (.hello caps) ∈ pre →
      liveSession pre = some c := by
  intro pre hpre raw caps hmem
  refine (h pre (mem_inits _ _ |>.2 hpre)).resolve_right fun hnil => ?_
  have := flatMap_eq_nil_iff.1 hnil _ hmem
  simp [messageOf] at this

/-- Two messages on a WebTransport stream, and a native client that is displaced. -/
def splitRun : List BridgeOp :=
  [.established 7, .readable 7 0 [1] false .accepted, .readable 7 4 [3, 0] false .pending,
    .drain [7] fun _ => 5,
    .established 2, .readable 2 0 [1] false .accepted, .readable 2 4 [0x40] false .pending,
    .drain [2, 7] fun _ => 6, .readable 2 4 [0x41, 0, 3] false .pending,
    .readable 7 4 [4, 1] false .pending, .drain [7, 2] fun _ => 7,
    .readable 2 4 [2, 4, 9] false .pending, .drain [7, 2] fun _ => 8,
    .readable 2 4 [8, 7, 6] true .pending, .drain [2] fun _ => 9]

/-- The script of the second connection of `splitRun`. -/
def splitFeed : Feed where
  conn := ⟨2, 1⟩
  connectStream := 0
  sid := 4
  header := [0x40, 0x41, 0]
  script :=
    [([3, 2], .hello { supportsH264 := true }), ([4, 9, 8, 7, 6], .decodeError ⟨9, 8, 7, 6⟩)]
  distinct := by decide
  header_ok := .inr ⟨[0x40, 0x41], [0], 0, by decide⟩
  wire := by decide
  hello := ⟨[3, 2], _, _, rfl⟩

/-- The event is no read of the connection outside its two streams. -/
def Ev.keepsTo (f : Feed) : Ev → Bool
  | .read c s accepted _ => c = f.conn → s = f.connectStream ∨ s = f.sid ∧ accepted = true
  | _ => true

/-- The displaced client and the split header do not keep the messages from arriving. -/
theorem feedback_confined_splitRun :
    messagesOf ⟨2, 1⟩ (Bridge.after splitRun).journal =
      [.hello { supportsH264 := true }, .decodeError ⟨9, 8, 7, 6⟩] := by
  have hsteady : Steady splitFeed (after splitRun).journal := by
    refine ⟨?_, ?_, by decide, live_of_inits (by decide)⟩
    · have hall : ∀ ev ∈ (after splitRun).journal, ev.keepsTo splitFeed = true := by decide
      intro s accepted bytes hmem
      exact of_decide_eq_true (hall _ hmem) rfl
    · decide
  exact ((feedback_confined splitRun).2.2.2 splitFeed hsteady).2 (by decide) (by decide)

end Ghostframe.Feedback
