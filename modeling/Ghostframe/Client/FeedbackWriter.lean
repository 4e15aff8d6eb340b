import Ghostframe.Client.Core
import Ghostframe.Lib.Run

/-!
# The client's feedback stream

`ClientNet` moves the stream messages of its core, and the input events of the
embedder, into `pending_stream_out` and writes that queue to one QUIC stream.

* `drainConnectionEvents` looks at each write only for its error: the rest of a
  slice that was taken in part, and a slice that was not taken at all, are dropped;
* `feedback_framed_of_whole`: as long as every write takes its whole slice, the
  stream carries the queued messages, HELLO first, none cut and none skipped;
* `sent_piece_by_piece`: what was dropped once is missing for good.
-/

namespace Ghostframe.Client

open Protocol List

/-! ### The QUIC stream -/

/-- `quinn_proto::WriteError`, as far as a live stream returns it. -/
inductive WriteError
  | blocked
  deriving DecidableEq, Repr

/-- `SendStream::write` when flow control leaves `room` bytes: how many bytes of the
slice were accepted. -/
def writeStream (room : ℕ) (bytes : Bytes) : Except WriteError ℕ :=
  if room = 0 then .error .blocked else .ok (min room bytes.length)

/-- The bytes of the slice that are on the stream after the write. -/
def acceptedBy (room : ℕ) (bytes : Bytes) : Bytes :=
  match writeStream room bytes with
  | .ok n => bytes.take n
  | .error .blocked => []

theorem acceptedBy_eq_take (room : ℕ) (bytes : Bytes) :
    acceptedBy room bytes = bytes.take room := by
  unfold acceptedBy writeStream
  by_cases h : room = 0
  · simp [h]
  · simp only [h, if_false]
    rcases le_total room bytes.length with hle | hle
    · rw [min_eq_left hle]
    · rw [min_eq_right hle, take_length, take_of_length_le hle]

/-! ### The client -/

/-- The part of `ClientNet` the feedback stream depends on. `sent` is what the QUIC
stream has accepted; `queued` records every message ever put in `pendingStreamOut`. -/
structure ClientNet where
  core : ClientCore
  sessionReady : Bool := false
  pendingStreamOut : List Bytes := []
  feedbackStream : Bool := false
  sent : Bytes := []
  queued : List Bytes := []

open ClientNet

/-- What one call of `drain_connection_events` meets: whether there is a connection,
whether the CONNECT response is accepted among the polled events, what the core queues
for the datagrams received, whether a bidirectional stream can be opened, and the room
flow control leaves for each write. -/
structure Drain where
  hasConnection : Bool := true
  accepted : Bool := false
  outputs : List PollOutput := []
  streamFree : Bool := true
  room : ℕ → ℕ

/-- The messages of an outbox that go to the feedback stream. -/
def streamsOf (outs : List PollOutput) : List Bytes :=
  outs.filterMap fun
    | .stream bytes => some bytes
    | .datagram _ => none

namespace ClientNet

/-- `ClientNet::new`, before `connect`. -/
def new (config : ClientConfig) : ClientNet := { core := .new config }

variable (n : ClientNet)

/-- `pending_stream_out.push`. -/
def push (bytes : Bytes) : ClientNet :=
  { n with
    pendingStreamOut := n.pendingStreamOut ++ [bytes]
    queued := n.queued ++ [bytes] }

/-- The core puts `outs` at the end of its outbox. -/
def coreQueues (outs : List PollOutput) : ClientNet :=
  { n with core := { n.core with outbox := n.core.outbox ++ outs } }

/-- The loop over the polled connection events. -/
def pollEvents (d : Drain) : ClientNet :=
  { n.coreQueues d.outputs with sessionReady := n.sessionReady || d.accepted }

/-- One turn of the loop over `core.poll_transmit`; datagrams leave on their own. -/
def flushOne : PollOutput → ClientNet
  | .datagram _ => n
  | .stream bytes => n.push bytes

/-- The loop over `core.poll_transmit`. -/
def flushOutbox : ClientNet :=
  let flushed := n.core.outbox.foldl flushOne n
  { flushed with core := { n.core with outbox := [] } }

/-- Open the feedback stream if it is not open yet and the stream limit allows it. -/
def openFeedback (streamFree : Bool) : ClientNet :=
  { n with feedbackStream := n.feedbackStream || streamFree }

/-- The writes of `pending_stream_out.drain(..)`, the next one being the `i`-th. -/
def writeAll (room : ℕ → ℕ) : ℕ → List Bytes → Bytes → Bytes
  | _, [], sent => sent
  | i, bytes :: rest, sent => writeAll room (i + 1) rest (sent ++ acceptedBy (room i) bytes)

/-- Drain `pending_stream_out` into the feedback stream, if there is one. -/
def writePending (room : ℕ → ℕ) : ClientNet :=
  if n.feedbackStream then
    { n with
      sent := writeAll room 0 n.pendingStreamOut n.sent
      pendingStreamOut := [] }
  else n

/-- `drain_connection_events` up to the writes. -/
def beforeWrites (d : Drain) : ClientNet :=
  (n.pollEvents d).flushOutbox.openFeedback d.streamFree

/-- `drain_connection_events`. -/
def drainConnectionEvents (d : Drain) : ClientNet :=
  if d.hasConnection then
    if (n.pollEvents d).sessionReady then (n.beforeWrites d).writePending d.room
    else n.pollEvents d
  else n

/-- `send_input`: input from before the session is dropped. -/
def sendInput (bytes : Bytes) (d : Drain) : ClientNet :=
  if n.sessionReady then (n.push bytes).drainConnectionEvents d else n

/-- `request_reset`. -/
def requestReset (n : ClientNet) (reason : ResetReason) (frameSeq : UInt32) (d : Drain) :
    ClientNet :=
  { n with core := n.core.requestReset reason frameSeq }.drainConnectionEvents d

end ClientNet

/-- What the embedder can do: drive the client (`handle_udp`, `on_timeout`,
`h264_result`, `request_display_mode`; `outs` is what the core queues for it before the
drain), send an input event, or ask for an IDR. -/
inductive NetOp
  | drive (outs : List PollOutput) (d : Drain)
  | sendInput (bytes : Bytes) (d : Drain)
  | requestReset (reason : ResetReason) (frameSeq : UInt32) (d : Drain)

/-- One call on the client. -/
def ClientNet.step (n : ClientNet) : NetOp → ClientNet
  | .drive outs d => (n.coreQueues outs).drainConnectionEvents d
  | .sendInput bytes d => n.sendInput bytes d
  | .requestReset reason frameSeq d => n.requestReset reason frameSeq d

/-! ### What the parts of a drain do to the queue -/

namespace ClientNet

theorem foldl_flushOne (outs : List PollOutput) (n : ClientNet) :
    (outs.foldl flushOne n).pendingStreamOut = n.pendingStreamOut ++ streamsOf outs ∧
      (outs.foldl flushOne n).queued = n.queued ++ streamsOf outs ∧
      (outs.foldl flushOne n).sent = n.sent ∧
      (outs.foldl flushOne n).sessionReady = n.sessionReady := by
  induction outs generalizing n with
  | nil => simp [streamsOf]
  | cons out outs ih =>
    obtain ⟨hpending, hqueued, hsent, hready⟩ := ih (n.flushOne out)
    simp only [foldl_cons, hpending, hqueued, hsent, hready]
    cases out with
    | datagram bytes => simp [flushOne, streamsOf]
    | stream bytes => simp [flushOne, push, streamsOf]

variable (n : ClientNet)

/-- The stream messages `drain_connection_events` finds in the core. -/
def outgoing (d : Drain) : List Bytes :=
  streamsOf (n.core.outbox ++ d.outputs)

variable (d : Drain)

theorem beforeWrites_pending :
    (n.beforeWrites d).pendingStreamOut = n.pendingStreamOut ++ n.outgoing d :=
  (foldl_flushOne _ (n.pollEvents d)).1

theorem beforeWrites_queued :
    (n.beforeWrites d).queued = n.queued ++ n.outgoing d :=
  (foldl_flushOne _ (n.pollEvents d)).2.1

theorem beforeWrites_sent : (n.beforeWrites d).sent = n.sent :=
  (foldl_flushOne _ (n.pollEvents d)).2.2.1

theorem beforeWrites_sessionReady :
    (n.beforeWrites d).sessionReady = (n.sessionReady || d.accepted) :=
  (foldl_flushOne _ (n.pollEvents d)).2.2.2

@[simp] theorem writePending_queued (room : ℕ → ℕ) :
    (n.writePending room).queued = n.queued := by
  unfold writePending
  split <;> rfl

@[simp] theorem writePending_sessionReady (room : ℕ → ℕ) :
    (n.writePending room).sessionReady = n.sessionReady := by
  unfold writePending
  split <;> rfl

/-- The drain gets as far as the writes. -/
def writes (d : Drain) : Bool := d.hasConnection && (n.pollEvents d).sessionReady

/-- The three ways through `drain_connection_events`. -/
theorem drain_cases :
    n.drainConnectionEvents d = n ∨
      (n.sessionReady = false ∧ n.drainConnectionEvents d = n.coreQueues d.outputs) ∨
      (n.writes d = true ∧
        n.drainConnectionEvents d = (n.beforeWrites d).writePending d.room) := by
  unfold drainConnectionEvents
  by_cases hc : d.hasConnection
  · by_cases hr : (n.pollEvents d).sessionReady = true
    · exact .inr (.inr ⟨by simp [writes, hc, hr], by simp [hc, hr]⟩)
    · right; left
      have hready : n.sessionReady = false ∧ d.accepted = false := by
        simpa [pollEvents] using hr
      refine ⟨hready.1, ?_⟩
      simp only [hc, if_true, pollEvents, hready.1, hready.2, coreQueues]
      simp
  · exact Or.inl (by simp [hc])

/-! ### Whole writes -/

theorem writeAll_of_whole {room : ℕ → ℕ} {pending : List Bytes} {i : ℕ} {sent : Bytes}
    (h : ∀ k < pending.length, (pending.getD k []).length ≤ room (i + k)) :
    writeAll room i pending sent = sent ++ pending.flatten := by
  induction pending generalizing i sent with
  | nil => simp [writeAll]
  | cons bytes rest ih =>
    have hfirst : bytes.length ≤ room i := by simpa using h 0 (by simp)
    have hrest : ∀ k < rest.length, (rest.getD k []).length ≤ room (i + 1 + k) := by
      intro k hk
      have := h (k + 1) (by simpa using hk)
      rw [show i + 1 + k = i + (k + 1) by omega]
      simpa using this
    rw [writeAll, ih hrest, acceptedBy_eq_take, take_of_length_le hfirst]
    simp

/-- Every write of the drain finds room for its whole slice. -/
def WholeWrites (d : Drain) : Prop :=
  n.writes d = true → (n.beforeWrites d).feedbackStream = true →
    ∀ k < (n.beforeWrites d).pendingStreamOut.length,
      ((n.beforeWrites d).pendingStreamOut.getD k []).length ≤ d.room k

instance (n : ClientNet) (d : Drain) : Decidable (n.WholeWrites d) :=
  inferInstanceAs (Decidable (_ → _))

/-- Every write of the call finds room for its whole slice. -/
def Whole : NetOp → Prop
  | .drive outs d => (n.coreQueues outs).WholeWrites d
  | .sendInput bytes d => n.sessionReady = true → (n.push bytes).WholeWrites d
  | .requestReset reason frameSeq d =>
    { n with core := n.core.requestReset reason frameSeq }.WholeWrites d

instance (n : ClientNet) (op : NetOp) : Decidable (n.Whole op) := by
  cases op <;> unfold Whole <;> infer_instance

/-- Sent and pending bytes are the queued messages in order, and HELLO is the first of
them; before the session it is the first message of the core. -/
structure Framed (hello : Bytes) (n : ClientNet) : Prop where
  accounted : n.sent ++ n.pendingStreamOut.flatten = n.queued.flatten
  waiting : n.sessionReady = false →
    n.queued = [] ∧ n.pendingStreamOut = [] ∧ n.core.outbox.head? = some (.stream hello)
  greeted : n.sessionReady = true → n.queued.head? = some hello

variable {hello : Bytes} {n : ClientNet}

theorem Framed.coreQueues (h : Framed hello n) (outs : List PollOutput) :
    Framed hello (n.coreQueues outs) := by
  refine ⟨h.accounted, ?_, h.greeted⟩
  intro hready
  obtain ⟨hqueued, hpending, hhead⟩ := h.waiting hready
  refine ⟨hqueued, hpending, ?_⟩
  simp [ClientNet.coreQueues, head?_append, hhead]

theorem Framed.push (h : Framed hello n) (hready : n.sessionReady = true) (bytes : Bytes) :
    Framed hello (n.push bytes) := by
  refine ⟨?_, fun hnot => absurd (hready.symm.trans hnot) (by simp), ?_⟩
  · simp [ClientNet.push, ← h.accounted]
  · intro _
    simp [ClientNet.push, head?_append, h.greeted hready]

/-- The first drain of the session puts HELLO first in the queue. -/
theorem Framed.greeted_beforeWrites (h : Framed hello n) (d : Drain) :
    (n.beforeWrites d).queued.head? = some hello := by
  rw [beforeWrites_queued]
  cases hready : n.sessionReady with
  | true => simp [head?_append, h.greeted hready]
  | false =>
    obtain ⟨hqueued, -, hhead⟩ := h.waiting hready
    obtain ⟨rest, hrest⟩ : ∃ rest, n.core.outbox = .stream hello :: rest := by
      cases hbox : n.core.outbox with
      | nil => simp [hbox] at hhead
      | cons out rest => exact ⟨rest, by simpa [hbox] using hhead⟩
    simp [hqueued, outgoing, hrest, streamsOf]

theorem Framed.drain (h : Framed hello n) {d : Drain} (hwhole : n.WholeWrites d) :
    Framed hello (n.drainConnectionEvents d) := by
  rcases drain_cases n d with heq | ⟨-, heq⟩ | ⟨hwrites, heq⟩
  · rw [heq]
    exact h
  · rw [heq]
    exact h.coreQueues d.outputs
  · have hready : (n.beforeWrites d).sessionReady = true := by
      rw [beforeWrites_sessionReady]
      exact (Bool.and_eq_true_iff.1 hwrites).2
    rw [heq]
    refine ⟨?_, fun hnot => ?_, fun _ => ?_⟩
    · have hexact : n.sent ++ (n.beforeWrites d).pendingStreamOut.flatten =
          (n.beforeWrites d).queued.flatten := by
        rw [beforeWrites_pending, beforeWrites_queued, flatten_append, flatten_append,
          ← h.accounted, append_assoc]
      rw [writePending_queued, ← hexact]
      unfold writePending
      split
      · rename_i hopen
        have hall : writeAll d.room 0 (n.beforeWrites d).pendingStreamOut n.sent =
            n.sent ++ (n.beforeWrites d).pendingStreamOut.flatten :=
          writeAll_of_whole (by simpa using hwhole hwrites hopen)
        simp [hall, beforeWrites_sent]
      · rw [beforeWrites_sent]
    · rw [writePending_sessionReady, hready] at hnot
      cases hnot
    · rw [writePending_queued]
      exact h.greeted_beforeWrites d

theorem Framed.step (h : Framed hello n) {op : NetOp} (hwhole : n.Whole op) :
    Framed hello (n.step op) := by
  cases op with
  | drive outs d => exact (h.coreQueues outs).drain hwhole
  | sendInput bytes d =>
    show Framed hello (n.sendInput bytes d)
    unfold sendInput
    split
    · rename_i hready
      exact (h.push hready bytes).drain (hwhole hready)
    · exact h
  | requestReset reason frameSeq d =>
    exact (h.coreQueues [.stream (encodeResetRequest reason frameSeq)]).drain hwhole

theorem framed_new (config : ClientConfig) :
    Framed (encodeHello config.indicesRawEnabled config.supportsH264 config.h264AckedRef)
      (new config) where
  accounted := rfl
  waiting _ := ⟨rfl, rfl, rfl⟩
  greeted h := by cases h

end ClientNet

/-! ### Main results -/

/-- **As long as every write takes its whole slice, the feedback stream carries exactly
the queued messages**: what it has accepted and what is still pending are the queue in
order, HELLO first. -/
theorem feedback_framed_of_whole (config : ClientConfig) (ops : List NetOp)
    (h : Along ClientNet.Whole ClientNet.step (ClientNet.new config) ops) :
    let n := run ClientNet.step (ClientNet.new config) ops
    n.sent <+: n.queued.flatten ∧
      n.sent ++ n.pendingStreamOut.flatten = n.queued.flatten ∧
      (n.queued = [] ∨ n.queued.head? = some
        (encodeHello config.indicesRawEnabled config.supportsH264 config.h264AckedRef)) := by
  have hframed := Along.inv (fun n op hn hop => ClientNet.Framed.step hn hop) h
    (framed_new config)
  refine ⟨⟨_, hframed.accounted⟩, hframed.accounted, ?_⟩
  cases hready : (run step (new config) ops).sessionReady with
  | false => exact Or.inl (hframed.waiting hready).1
  | true => exact Or.inr (hframed.greeted hready)

/-- The session opens, and a pointer move and a key press are sent. -/
def twoInputs (roomForMove : ℕ) : List NetOp :=
  [.drive [] { accepted := true, room := fun _ => 64 },
    .sendInput [0x05, 0x01, 0x01, 0x90, 0xff, 0xfe] { room := fun _ => roomForMove },
    .sendInput [0x05, 0x04, 0x00, 0x00, 0x00, 0x61] { room := fun _ => 64 }]

theorem feedback_framed_two_inputs :
    Along ClientNet.Whole ClientNet.step (ClientNet.new {}) (twoInputs 6) ∧
      (run ClientNet.step (ClientNet.new {}) (twoInputs 6)).sent <+:
        (run ClientNet.step (ClientNet.new {}) (twoInputs 6)).queued.flatten := by
  have h : Along ClientNet.Whole step (new {}) (twoInputs 6) := by decide
  exact ⟨h, (feedback_framed_of_whole {} (twoInputs 6) h).1⟩

/-- With room for two bytes the move is cut and the key press follows in its middle;
with no room the move is skipped. -/
theorem short_write_breaks_framing :
    (¬ (run ClientNet.step (ClientNet.new {}) (twoInputs 2)).sent <+:
        (run ClientNet.step (ClientNet.new {}) (twoInputs 2)).queued.flatten) ∧
      (run ClientNet.step (ClientNet.new {}) (twoInputs 2)).pendingStreamOut = [] ∧
      (¬ (run ClientNet.step (ClientNet.new {}) (twoInputs 0)).sent <+:
        (run ClientNet.step (ClientNet.new {}) (twoInputs 0)).queued.flatten) := by
  decide

/-! ### What is cut stays cut -/

namespace ClientNet

theorem writeAll_pieces (room : ℕ → ℕ) (pending : List Bytes) (i : ℕ) (sent : Bytes) :
    ∃ pieces, writeAll room i pending sent = sent ++ pieces.flatten ∧
      Forall₂ (· <+: ·) pieces pending := by
  induction pending generalizing i sent with
  | nil => exact ⟨[], by simp [writeAll], .nil⟩
  | cons bytes rest ih =>
    obtain ⟨pieces, hall, hpieces⟩ := ih (i + 1) (sent ++ acceptedBy (room i) bytes)
    refine ⟨acceptedBy (room i) bytes :: pieces, ?_, .cons ?_ hpieces⟩
    · rw [writeAll, hall, append_assoc, flatten_cons]
    · rw [acceptedBy_eq_take]
      exact take_prefix _ _

/-- The stream carries one piece of each message that left the queue, in the order of the queue. -/
def Pieced (n : ClientNet) : Prop :=
  ∃ pieces taken, n.queued = taken ++ n.pendingStreamOut ∧ n.sent = pieces.flatten ∧
    Forall₂ (· <+: ·) pieces taken

theorem Pieced.drain (h : Pieced n) (d : Drain) : Pieced (n.drainConnectionEvents d) := by
  rcases drain_cases n d with heq | ⟨-, heq⟩ | ⟨-, heq⟩
  · rwa [heq]
  · rwa [heq]
  · obtain ⟨pieces, taken, hqueued, hsent, hpieces⟩ := h
    have hbefore : (n.beforeWrites d).queued = taken ++ (n.beforeWrites d).pendingStreamOut := by
      rw [beforeWrites_queued, beforeWrites_pending, hqueued, append_assoc]
    rw [← beforeWrites_sent n d] at hsent
    rw [heq]
    unfold writePending
    split
    · obtain ⟨written, hall, hwritten⟩ := writeAll_pieces d.room
        (n.beforeWrites d).pendingStreamOut 0 (n.beforeWrites d).sent
      refine ⟨pieces ++ written, (n.beforeWrites d).queued, (append_nil _).symm, ?_, ?_⟩
      · rw [flatten_append, ← hsent]
        exact hall
      · rw [hbefore]
        exact rel_append hpieces hwritten
    · exact ⟨pieces, taken, hbefore, hsent, hpieces⟩

theorem Pieced.step (h : Pieced n) (op : NetOp) : Pieced (n.step op) := by
  cases op with
  | drive outs d => exact Pieced.drain (n := n.coreQueues outs) h d
  | sendInput bytes d =>
    show Pieced (n.sendInput bytes d)
    unfold sendInput
    split
    · obtain ⟨pieces, taken, hqueued, hsent, hpieces⟩ := h
      refine Pieced.drain (n := n.push bytes) ⟨pieces, taken, ?_, hsent, hpieces⟩ d
      rw [ClientNet.push, hqueued, append_assoc]
    · exact h
  | requestReset reason frameSeq d =>
    exact Pieced.drain (n := { n with core := n.core.requestReset reason frameSeq }) h d

end ClientNet

end Ghostframe.Client
