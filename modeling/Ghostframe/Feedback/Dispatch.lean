import Ghostframe.Feedback.Messages
import Ghostframe.Lib.Dict
import Ghostframe.Lib.Run
import Ghostframe.Transport.Content

/-!
# The feedback dispatcher of the bridge

What a bidirectional stream of a connection delivers is stripped of its WebTransport
header, queued, and handed to `dispatch_feedback_bytes`, which cuts messages out of it.
One connection at a time is the live session; a HELLO makes its sender live.

* `WebTransportServer.onStreamReadable`: reads, the header strip, the feedback queue;
* `Bridge.dispatchFeedbackBytes`: the accumulator of a sender and the message loop;
* `drainFeedback`: all queues are dispatched as one batch, in any order.

A connection is its handle and the number of connections that had the handle before it:
quinn reuses handles. The `journal` records what happens to every byte and message; the
bridge itself never reads it. Unidirectional streams and what the handlers do with a
message are left out.
-/

namespace Ghostframe.Feedback

open Transport

/-- `ConnectionHandle`. -/
abbrev Handle := ℕ

/-- `StreamId` of a bidirectional stream. -/
abbrev StreamId := ℕ

/-! ### WebTransport sessions -/

/-- The length of a variable-length integer, from its first byte. -/
def varIntLen (first : UInt8) : ℕ := 2 ^ (first.toNat / 64)

/-- The number a byte string writes, most significant byte first. -/
def beNat (bytes : Bytes) : ℕ := bytes.foldl (fun n b => n * 256 + b.toNat) 0

/-- `VarInt::decode`: the value and the rest; `none` when bytes are missing. -/
def varIntDecode : Bytes → Option (ℕ × Bytes)
  | [] => none
  | first :: rest =>
    let len := varIntLen first
    if (first :: rest).length < len then none
    else some (beNat ((first :: rest).take len) % 2 ^ (8 * len - 2), (first :: rest).drop len)

def webTransportBiStream : ℕ := 0x41
def maxHeldStreamBytes : ℕ := 16 * 1024
def maxHeldTotalBytes : ℕ := 64 * 1024

/-- What `ConnectRequest::decode` and the answer to it come to. -/
inductive ConnectOutcome
  | accepted
  | pending
  | rejected
  deriving DecidableEq

/-- `WebTransportServer`, as far as its bidirectional streams are concerned. `closed`
are the streams quinn has read to their end. -/
structure WebTransportServer where
  connected : Bool := false
  sessionStream : Option StreamId := none
  streamBufs : Dict StreamId Bytes := Dict.empty
  wtHeaderStripped : Finset StreamId := ∅
  abandonedStreams : Finset StreamId := ∅
  closed : Finset StreamId := ∅
  feedbackQueue : List Bytes := []

namespace WebTransportServer

variable (w : WebTransportServer) (sid : StreamId)

/-- The bytes held for a stream. -/
def held : Bytes := (w.streamBufs.get? sid).getD []

/-- The bytes after the WebTransport stream header; `none` while it is incomplete. -/
def stripHeader (buf : Bytes) : Option Bytes :=
  match varIntDecode buf with
  | none => none
  | some (kind, afterKind) =>
    if kind = webTransportBiStream then (varIntDecode afterKind).map Prod.snd
    else some buf

/-- What `route_stream_to_feedback` does once the header is gone: `bytes` go to the
queue, unless there are none. -/
def pushFeedback (bytes : Bytes) : WebTransportServer :=
  { w with
    wtHeaderStripped := insert sid w.wtHeaderStripped
    streamBufs := w.streamBufs.erase sid
    feedbackQueue := if bytes = [] then w.feedbackQueue else w.feedbackQueue ++ [bytes] }

/-- The bytes `route_stream_to_feedback` can pass on; `none` while the header is split. -/
def routable : Option Bytes :=
  if sid ∈ w.wtHeaderStripped then some (w.held sid) else stripHeader (w.held sid)

/-- `route_stream_to_feedback`. -/
def routeStreamToFeedback : WebTransportServer :=
  match w.routable sid with
  | some bytes => w.pushFeedback sid bytes
  | none => w

/-- `try_decode_connect`; `outcome` is what the CONNECT decoder says before the session. -/
def tryDecodeConnect (outcome : ConnectOutcome) : WebTransportServer :=
  if w.connected then w.routeStreamToFeedback sid
  else
    match outcome with
    | .accepted =>
      { w with connected := true, sessionStream := some sid, streamBufs := w.streamBufs.erase sid }
    | .pending => w
    | .rejected => { w with streamBufs := w.streamBufs.erase sid }

/-- The bytes held for all streams. -/
def heldTotal : ℕ := (w.streamBufs.toList.map fun e => e.2.length).sum

/-- `bound_held_stream`. -/
def boundHeldStream : WebTransportServer :=
  if w.streamBufs.contains sid ∧
      (maxHeldStreamBytes < (w.held sid).length ∨ maxHeldTotalBytes < w.heldTotal) then
    { w with
      streamBufs := w.streamBufs.erase sid
      abandonedStreams := insert sid w.abandonedStreams }
  else w

/-- `stream_ended`. -/
def streamEnded : WebTransportServer :=
  { w with
    streamBufs := w.streamBufs.erase sid
    abandonedStreams := w.abandonedStreams.erase sid
    wtHeaderStripped := w.wtHeaderStripped.erase sid }

/-- Quinn has read the stream to its end, or the peer has reset it. -/
def close (fin : Bool) : WebTransportServer :=
  if fin then { w with closed := insert sid w.closed } else w

/-- The records of a finished stream go, except those of the session stream. -/
def finish (fin : Bool) : WebTransportServer :=
  if fin ∧ w.sessionStream ≠ some sid then w.streamEnded sid else w

/-- Append to the buffer of a stream. -/
def extend (bytes : Bytes) : WebTransportServer :=
  { w with streamBufs := w.streamBufs.insert sid (w.held sid ++ bytes) }

/-- `on_stream_readable` of a bidirectional stream, for the bytes `drain_stream` got. -/
def onStreamReadable (bytes : Bytes) (fin : Bool)
    (outcome : ConnectOutcome) : WebTransportServer :=
  if sid ∈ w.closed then w.streamEnded sid
  else if bytes = [] then (w.close sid fin).finish sid fin
  else if w.sessionStream = some sid ∨ sid ∈ w.abandonedStreams then w.close sid fin
  else
    ((((w.close sid fin).extend sid bytes).tryDecodeConnect sid outcome).boundHeldStream
      sid).finish sid fin

/-- `on_stream_readable` of a stream the peer has reset. -/
def onStreamReset : WebTransportServer :=
  (w.close sid true).streamEnded sid

end WebTransportServer

/-! ### The journal -/

/-- A connection: the handle and how many connections had it before. -/
structure Conn where
  handle : Handle
  epoch : ℕ
  deriving DecidableEq

/-- What happens to connections, bytes and messages. -/
inductive Ev
  | opened (c : Conn)
  /-- Bytes read from a stream, before or after the session was accepted. -/
  | read (c : Conn) (sid : StreamId) (accepted : Bool) (bytes : Bytes)
  /-- Bytes of a stream put in the feedback queue. -/
  | queued (c : Conn) (sid : StreamId) (bytes : Bytes)
  /-- Bytes handed to `dispatch_feedback_bytes`. -/
  | chunk (c : Conn) (bytes : Bytes)
  /-- The connection becomes, or stays, the live session. -/
  | took (c : Conn)
  /-- The bytes `raw` were dispatched as the message `msg`. -/
  | message (c : Conn) (raw : Bytes) (msg : FeedbackMsg)
  /-- A message its decoder refused was stepped over. -/
  | skipped (c : Conn) (raw : Bytes)
  /-- Bytes of the accumulator were discarded. -/
  | dropped (c : Conn) (bytes : Bytes)
  /-- The bridge forgets the connection. -/
  | ended (c : Conn)
  deriving DecidableEq

/-- How one event changes the live session. -/
def liveStep (live : Option Conn) : Ev → Option Conn
  | .took c => some c
  | .ended c => if live = some c then none else live
  | _ => live

/-- The live session after a history: the last connection whose HELLO was taken, unless
it has ended since. -/
def liveSession (journal : List Ev) : Option Conn := journal.foldl liveStep none

/-! ### The bridge -/

/-- Why a connection is to be closed. -/
inductive CloseCode
  | noHello
  | evicted
  | takeoverRateLimited
  | accessRevoked
  deriving DecidableEq

/-- `CloseDeadline`. -/
structure CloseDeadline where
  deadline : Instant
  code : CloseCode
  deriving DecidableEq

def takeoverMinInterval : Duration := 1000000000
def helloDeadline : Duration := 20000000000
def evictCloseGrace : Duration := 1000000000
def revokeCloseGrace : Duration := 0

/-- The part of `IoBridge` that feedback depends on. -/
structure Bridge where
  wtSessions : Dict Handle WebTransportServer := Dict.empty
  feedbackRecvBufs : Dict Handle Bytes := Dict.empty
  lastHelloFrom : Option Handle := none
  closeDeadlines : Dict Handle CloseDeadline := Dict.empty
  lastTakeoverAt : Option Instant := none
  clientCaps : ClientCapabilities := {}
  epoch : Handle → ℕ := fun _ => 0
  journal : List Ev := []

namespace Bridge

variable (b : Bridge)

/-- The connection that has the handle now. -/
def connAt (h : Handle) : Conn := ⟨h, b.epoch h⟩

/-- Write an event in the journal. -/
def log (ev : Ev) : Bridge := { b with journal := b.journal ++ [ev] }

/-- `is_live`. -/
def isLive (h : Handle) : Bool := b.lastHelloFrom = some h

/-- The accumulator of a sender goes, and with it what it holds. -/
def dropRecvBuf (h : Handle) : Bridge :=
  { b.log (.dropped (b.connAt h) ((b.feedbackRecvBufs.get? h).getD [])) with
    feedbackRecvBufs := b.feedbackRecvBufs.erase h }

/-- The session of a handle goes. -/
def dropSession (h : Handle) : Bridge :=
  { b.log (.ended (b.connAt h)) with
    wtSessions := b.wtSessions.erase h
    closeDeadlines := b.closeDeadlines.erase h
    lastHelloFrom := if b.lastHelloFrom = some h then none else b.lastHelloFrom }

/-- `forget_session`. -/
def forgetSession (h : Handle) : Bridge := (b.dropRecvBuf h).dropSession h

/-- Arm a deadline. -/
def closeBy (h : Handle) (deadline : Instant) (code : CloseCode) : Bridge :=
  { b with closeDeadlines := b.closeDeadlines.insert h ⟨deadline, code⟩ }

/-- `evict_session`. -/
def evictSession (h : Handle) (now : Instant) : Bridge :=
  (b.forgetSession h).closeBy h (now + evictCloseGrace) .evicted

/-- `takeover_rate_limited`. -/
def takeoverRateLimited (now : Instant) : Bool :=
  match b.lastTakeoverAt with
  | some t => now - t < takeoverMinInterval
  | none => false

/-- Another connection is live. -/
def takesOver (h : Handle) : Bool :=
  match b.lastHelloFrom with
  | some incumbent => incumbent ≠ h
  | none => false

/-- The sender of the HELLO is the live session from here on. -/
def becomeLive (h : Handle) (now : Instant) (caps : ClientCapabilities) : Bridge :=
  { b.log (.took (b.connAt h)) with
    lastTakeoverAt := if b.takesOver h then some now else b.lastTakeoverAt
    lastHelloFrom := some h
    closeDeadlines := b.closeDeadlines.erase h
    clientCaps := caps }

/-- `apply_hello`. -/
def applyHello (h : Handle) (now : Instant) (caps : ClientCapabilities) : Bridge :=
  if b.wtSessions.contains h = false then b
  else if b.takesOver h ∧ b.takeoverRateLimited now then b.closeBy h now .takeoverRateLimited
  else
    match b.lastHelloFrom with
    | some incumbent =>
      if incumbent = h then b.becomeLive h now caps
      else (b.becomeLive h now caps).evictSession incumbent now
    | none => b.becomeLive h now caps

/-- The handler of a message; HELLO is the only one that changes this part of the bridge. -/
def handle (h : Handle) (now : Instant) (raw : Bytes) : Option FeedbackMsg → Bridge
  | none => b.log (.skipped (b.connAt h) raw)
  | some (.hello caps) => (b.applyHello h now caps).log (.message (b.connAt h) raw (.hello caps))
  | some msg => b.log (.message (b.connAt h) raw msg)

/-- The message loop: the bridge and the tail to retain, if any. Every turn takes at
least one byte, so `fuel` larger than the buffer is never used up. -/
def dispatchLoop (h : Handle) (now : Instant) : ℕ → Bridge → Bytes → Bridge × Option Bytes
  | 0, b, _ => (b, none)
  | fuel + 1, b, buf =>
    if buf = [] then (b, none)
    else if byteAt buf 0 ≠ helloMsgType ∧ b.isLive h = false then
      (b.log (.dropped (b.connAt h) buf), none)
    else
      match nextMessage buf with
      | .wait => (b, some buf)
      | .discard => (b.log (.dropped (b.connAt h) buf), none)
      | .take msg n => dispatchLoop h now fuel (b.handle h now (buf.take n) msg) (buf.drop n)

/-- Take the accumulator of a sender out of the map, for a new chunk. -/
def openChunk (h : Handle) (data : Bytes) : Bridge :=
  { b.log (.chunk (b.connAt h) data) with feedbackRecvBufs := b.feedbackRecvBufs.erase h }

/-- `dispatch_feedback_bytes`. -/
def dispatchFeedbackBytes (h : Handle) (now : Instant) (data : Bytes) : Bridge :=
  let buf := (b.feedbackRecvBufs.get? h).getD [] ++ data
  match dispatchLoop h now (buf.length + 1) (b.openChunk h data) buf with
  | (b, some tail) => { b with feedbackRecvBufs := b.feedbackRecvBufs.insert h tail }
  | (b, none) => b

/-- Take the feedback queue of one session. -/
def collectOne (acc : Bridge × List (Handle × Bytes)) (h : Handle) :
    Bridge × List (Handle × Bytes) :=
  match acc.1.wtSessions.get? h with
  | some w =>
    ({ acc.1 with wtSessions := acc.1.wtSessions.insert h { w with feedbackQueue := [] } },
      acc.2 ++ w.feedbackQueue.map fun d => (h, d))
  | none => acc

/-- Dispatch a batch; `now k` is the clock at the `k`-th chunk. -/
def dispatchBatch (now : ℕ → Instant) : ℕ → List (Handle × Bytes) → Bridge → Bridge
  | _, [], b => b
  | k, (h, data) :: batch, b =>
    dispatchBatch now (k + 1) batch (b.dispatchFeedbackBytes h (now k) data)

/-- The end of `drain_app_events`: collect the queues of the sessions in `order`, the
order of the hash map, then dispatch them. -/
def drainFeedback (order : List Handle) (now : ℕ → Instant) : Bridge :=
  let collected := order.foldl collectOne (b, [])
  dispatchBatch now 0 collected.2 collected.1

/-- `on_connection_established`: what an earlier connection left under the handle goes,
except the deadline for its HELLO. -/
def onConnectionEstablished (h : Handle) : Bridge :=
  let armed := (b.closeDeadlines.get? h).filter fun d => d.code = .noHello
  let b := b.forgetSession h
  let b := { b with
    epoch := Function.update b.epoch h (b.epoch h + 1)
    wtSessions := b.wtSessions.insert h {}
    closeDeadlines :=
      match armed with
      | some d => b.closeDeadlines.insert h d
      | none => b.closeDeadlines }
  b.log (.opened (b.connAt h))

/-- What a read adds to the feedback queue. -/
def newlyQueued (before after : WebTransportServer) : List Bytes :=
  after.feedbackQueue.drop before.feedbackQueue.length

/-- A stream of a connection is readable. -/
def onReadable (h : Handle) (sid : StreamId) (bytes : Bytes) (fin : Bool)
    (outcome : ConnectOutcome) : Bridge :=
  match b.wtSessions.get? h with
  | none => b
  | some w =>
    let w' := w.onStreamReadable sid bytes fin outcome
    let b := if sid ∈ w.closed then b else b.log (.read (b.connAt h) sid w.connected bytes)
    let b := { b with wtSessions := b.wtSessions.insert h w' }
    (newlyQueued w w').foldl (fun b d => b.log (.queued (b.connAt h) sid d)) b

/-- A stream of a connection was reset. -/
def onReset (h : Handle) (sid : StreamId) : Bridge :=
  { b with wtSessions := b.wtSessions.modify h fun w => w.onStreamReset sid }

/-- `sweep_close_deadlines`, for the deadlines that have passed. -/
def sweepCloseDeadlines (now : Instant) : Bridge :=
  (b.closeDeadlines.toList.filter fun e => e.2.deadline ≤ now).foldl
    (fun b e => b.forgetSession e.1) b

end Bridge

/-- What happens to the bridge: a connection is accepted, established, or lost (or reaped),
its access is revoked; a stream is readable or reset; deadlines are swept; the feedback of
all sessions is dispatched. -/
inductive BridgeOp
  | armHello (h : Handle) (now : Instant)
  | established (h : Handle)
  | gone (h : Handle)
  | revoked (h : Handle) (now : Instant)
  | readable (h : Handle) (sid : StreamId) (bytes : Bytes) (fin : Bool) (outcome : ConnectOutcome)
  | reset (h : Handle) (sid : StreamId)
  | sweep (now : Instant)
  | drain (order : List Handle) (now : ℕ → Instant)

/-- One step of the bridge. -/
def Bridge.step (b : Bridge) : BridgeOp → Bridge
  | .armHello h now => b.closeBy h (now + helloDeadline) .noHello
  | .established h => b.onConnectionEstablished h
  | .gone h => b.forgetSession h
  | .revoked h now => (b.forgetSession h).closeBy h (now + revokeCloseGrace) .accessRevoked
  | .readable h sid bytes fin outcome => b.onReadable h sid bytes fin outcome
  | .reset h sid => b.onReset h sid
  | .sweep now => b.sweepCloseDeadlines now
  | .drain order now => b.drainFeedback order now

end Ghostframe.Feedback
