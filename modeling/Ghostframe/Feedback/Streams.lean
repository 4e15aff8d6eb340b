import Ghostframe.Feedback.Dispatch

/-!
# What a session does with the bytes of a stream

A read appends to the buffer of its stream and then routes, keeps or throws away what the
buffer holds. What reaches the feedback queue is therefore a piece of what was read, in
one part: nothing is queued twice, reordered, or taken from another stream.

* `Traced w sid got queued`: the stream `sid` of the session `w`, from which `got` was
  read and `queued` was put in the feedback queue.
-/

namespace Ghostframe.Feedback

open Finset List

namespace WebTransportServer

variable {w : WebTransportServer} {sid other : StreamId} {bytes got queued : Bytes}
  {fin : Bool} {outcome : ConnectOutcome}

/-! ### The header -/

theorem varIntDecode_suffix {buf rest : Bytes} {v : ℕ} (h : varIntDecode buf = some (v, rest)) :
    rest <:+ buf := by
  cases buf with
  | nil => simp [varIntDecode] at h
  | cons first tl =>
    simp only [varIntDecode] at h
    split_ifs at h
    obtain ⟨-, rfl⟩ := Prod.mk.inj (Option.some.inj h)
    exact drop_suffix _ _

/-- The header is taken from the front. -/
theorem stripHeader_suffix {buf rest : Bytes} (h : stripHeader buf = some rest) : rest <:+ buf := by
  unfold stripHeader at h
  cases hkind : varIntDecode buf with
  | none => simp [hkind] at h
  | some found =>
    obtain ⟨kind, afterKind⟩ := found
    simp only [hkind] at h
    split_ifs at h
    · obtain ⟨⟨v, rest'⟩, hsession, rfl⟩ := Option.map_eq_some_iff.1 h
      exact (varIntDecode_suffix hsession).trans (varIntDecode_suffix hkind)
    · obtain rfl := Option.some.inj h
      exact suffix_rfl

theorem routable_suffix {out : Bytes} (h : w.routable sid = some out) : out <:+ w.held sid := by
  unfold routable at h
  split_ifs at h
  · obtain rfl := Option.some.inj h
    exact suffix_rfl
  · exact stripHeader_suffix h

/-! ### The feedback queue only grows -/

/-- The queue of `w'` is the queue of `w` and then `more`. -/
def Queues (w w' : WebTransportServer) (more : List Bytes) : Prop :=
  w'.feedbackQueue = w.feedbackQueue ++ more

theorem newlyQueued_of_queues {w w' : WebTransportServer} {more : List Bytes}
    (h : Queues w w' more) : Bridge.newlyQueued w w' = more := by
  rw [Bridge.newlyQueued, h, drop_left]

theorem Queues.same {w w' : WebTransportServer} (h : w'.feedbackQueue = w.feedbackQueue) :
    Queues w w' [] := h.trans (append_nil _).symm

@[simp] theorem feedbackQueue_close : (w.close sid fin).feedbackQueue = w.feedbackQueue := by
  cases fin <;> rfl

@[simp] theorem feedbackQueue_finish : (w.finish sid fin).feedbackQueue = w.feedbackQueue := by
  unfold finish
  split_ifs
  · rfl
  · rfl

@[simp] theorem feedbackQueue_boundHeldStream :
    (w.boundHeldStream sid).feedbackQueue = w.feedbackQueue := by
  unfold boundHeldStream
  split_ifs
  · rfl
  · rfl

@[simp] theorem held_extend : (w.extend sid bytes).held sid = w.held sid ++ bytes := by
  simp [held, extend]

/-! ### One stream -/

/-- The buffer of the stream is the rest of what was read: whatever was read before it and
not queued was thrown away, and that was before anything was queued. -/
def Exact (w : WebTransportServer) (sid : StreamId) (got queued : Bytes) : Prop :=
  (∃ front, got = front ++ queued ++ w.held sid) ∧ (sid ∉ w.wtHeaderStripped → queued = [])

/-- Nothing is routed, and no session stream is known, before the session is accepted. -/
def Ordered (w : WebTransportServer) : Prop :=
  w.connected = false → w.sessionStream = none ∧ w.wtHeaderStripped = ∅

/-- The stream `sid`: `got` was read from it and `queued` was put in the feedback queue. -/
structure Traced (w : WebTransportServer) (sid : StreamId) (got queued : Bytes) : Prop where
  piece : queued <:+: got
  exact_ : sid ∉ w.closed → sid ∉ w.abandonedStreams → w.sessionStream ≠ some sid →
    Exact w sid got queued

theorem Exact.piece (h : Exact w sid got queued) : queued <:+: got := by
  obtain ⟨⟨front, heq⟩, -⟩ := h
  exact ⟨front, w.held sid, heq.symm⟩

theorem Exact.extend (h : Exact w sid got queued) :
    Exact (w.extend sid bytes) sid (got ++ bytes) queued := by
  obtain ⟨⟨front, heq⟩, hstripped⟩ := h
  refine ⟨⟨front, ?_⟩, hstripped⟩
  rw [held_extend, heq, append_assoc]

theorem Exact.discard (h : Exact w sid got queued) (hfresh : sid ∉ w.wtHeaderStripped)
    {w' : WebTransportServer} (hheld : w'.held sid = []) : Exact w' sid got queued := by
  have hnil := h.2 hfresh
  subst hnil
  exact ⟨⟨got, by rw [hheld, append_nil, append_nil]⟩, fun _ => rfl⟩

theorem held_erase : (w.streamBufs.erase sid).get? sid = none := Dict.get?_erase_self _ _

/-- Routing moves a piece of the buffer to the queue and leaves nothing behind. -/
theorem Exact.pushFeedback {out : Bytes} (h : Exact w sid got queued)
    (hout : w.routable sid = some out) :
    Queues w (w.pushFeedback sid out) (if out = [] then [] else [out]) ∧
      Exact (w.pushFeedback sid out) sid got (queued ++ out) := by
  refine ⟨?_, ?_, fun hfresh => ?_⟩
  · unfold Queues WebTransportServer.pushFeedback
    split_ifs
    · exact (append_nil _).symm
    · rfl
  · obtain ⟨⟨front, heq⟩, hstripped⟩ := h
    have hheld : (w.pushFeedback sid out).held sid = [] := by
      rw [held, WebTransportServer.pushFeedback, held_erase]
      rfl
    obtain ⟨header, hsplit⟩ := routable_suffix hout
    by_cases hmem : sid ∈ w.wtHeaderStripped
    · -- nothing is stripped from a later read
      have hall : out = w.held sid := by
        rw [routable, if_pos hmem] at hout
        exact (Option.some.inj hout).symm
      refine ⟨front, ?_⟩
      rw [hheld, heq, hall, append_nil, append_assoc]
    · rw [hstripped hmem] at heq ⊢
      refine ⟨front ++ header, ?_⟩
      rw [hheld, heq, ← hsplit]
      simp
  · exact absurd (mem_insert_self _ _) hfresh

theorem flatten_if_nil (out : Bytes) :
    (if out = [] then [] else [out] : List Bytes).flatten = out := by
  split_ifs with h
  · rw [h]
    rfl
  · exact append_nil _

/-- Decoding or routing the buffer. -/
theorem Exact.tryDecodeConnect (h : Exact w sid got queued) (hord : Ordered w) :
    ∃ more, Queues w (w.tryDecodeConnect sid outcome) more ∧
      Exact (w.tryDecodeConnect sid outcome) sid got (queued ++ more.flatten) := by
  unfold WebTransportServer.tryDecodeConnect
  split_ifs with hconn
  · unfold WebTransportServer.routeStreamToFeedback
    cases hout : w.routable sid with
    | none => exact ⟨[], Queues.same rfl, by simpa using h⟩
    | some out =>
      obtain ⟨hqueues, hexact⟩ := h.pushFeedback hout
      refine ⟨_, hqueues, ?_⟩
      rw [flatten_if_nil]
      exact hexact
  · have hfresh : sid ∉ w.wtHeaderStripped := by
      rw [(hord (Bool.not_eq_true _ ▸ hconn)).2]
      exact notMem_empty sid
    have hgone : ((w.streamBufs.erase sid).get? sid).getD [] = [] := by rw [held_erase]; rfl
    cases outcome with
    | accepted | rejected =>
      refine ⟨[], Queues.same rfl, ?_⟩
      rw [flatten_nil, append_nil]
      exact h.discard hfresh hgone
    | pending => exact ⟨[], Queues.same rfl, by simpa using h⟩

/-! ### A read of the stream -/

theorem Traced.of_closed (hpiece : queued <:+: got) (hclosed : sid ∈ w.closed) :
    Traced w sid got queued := ⟨hpiece, fun h => absurd hclosed h⟩

@[simp] theorem close_false : w.close sid false = w := rfl

@[simp] theorem finish_false : w.finish sid false = w := by simp [finish]

theorem mem_closed_close_true : sid ∈ (w.close sid true).closed := mem_insert_self _ _

@[simp] theorem closed_finish : (w.finish sid fin).closed = w.closed := by
  unfold finish
  split_ifs
  · rfl
  · rfl

@[simp] theorem closed_boundHeldStream : (w.boundHeldStream sid).closed = w.closed := by
  unfold boundHeldStream
  split_ifs
  · rfl
  · rfl

@[simp] theorem closed_tryDecodeConnect : (w.tryDecodeConnect sid outcome).closed = w.closed := by
  unfold tryDecodeConnect routeStreamToFeedback
  split_ifs
  · cases w.routable sid with
    | none => rfl
    | some out => rfl
  · cases outcome with
    | accepted => rfl
    | pending => rfl
    | rejected => rfl

theorem Exact.boundHeldStream (h : Exact w sid got queued) :
    sid ∈ (w.boundHeldStream sid).abandonedStreams ∨
        Exact (w.boundHeldStream sid) sid got queued := by
  unfold WebTransportServer.boundHeldStream
  split_ifs
  · exact .inl (mem_insert_self _ _)
  · exact .inr h

theorem Exact.close (h : Exact w sid got queued) : Exact (w.close sid fin) sid got queued := by
  cases fin with
  | false => exact h
  | true => exact h

theorem Ordered.close (h : Ordered w) : Ordered (w.close sid fin) := by
  cases fin with
  | false => exact h
  | true => exact h

/-- A read adds to what was read, and what it queues follows in what was read. -/
theorem Traced.onStreamReadable (ht : Traced w sid got queued) (hord : Ordered w) (bytes : Bytes)
    (fin : Bool) (outcome : ConnectOutcome) :
    ∃ more, Queues w (w.onStreamReadable sid bytes fin outcome) more ∧
      Traced (w.onStreamReadable sid bytes fin outcome) sid
        (if sid ∈ w.closed then got else got ++ bytes) (queued ++ more.flatten) := by
  unfold WebTransportServer.onStreamReadable
  split_ifs with hclosed hempty hignored
  · refine ⟨[], Queues.same rfl, ?_⟩
    rw [flatten_nil, append_nil]
    exact Traced.of_closed ht.piece hclosed
  · refine ⟨[], Queues.same (by simp), ?_⟩
    rw [flatten_nil, append_nil, hempty, append_nil]
    cases fin with
    | false => simpa using ht
    | true =>
      refine Traced.of_closed ht.piece ?_
      rw [closed_finish]
      exact mem_closed_close_true
  · refine ⟨[], Queues.same (by simp), ?_⟩
    rw [flatten_nil, append_nil]
    have hpiece : queued <:+: got ++ bytes := ht.piece.trans (prefix_append _ _).isInfix
    cases fin with
    | false => exact ⟨hpiece, fun _ habandoned hsession => absurd hignored (by simp_all)⟩
    | true => exact Traced.of_closed hpiece mem_closed_close_true
  · rw [not_or] at hignored
    have hread : Exact ((w.close sid fin).extend sid bytes) sid (got ++ bytes) queued :=
      (ht.exact_ hclosed hignored.2 hignored.1).close.extend
    have hord' : Ordered ((w.close sid fin).extend sid bytes) := hord.close
    obtain ⟨more, hqueues, hexact⟩ := hread.tryDecodeConnect hord'
    refine ⟨more, ?_, ?_⟩
    · rw [Queues, feedbackQueue_finish, feedbackQueue_boundHeldStream, hqueues]
      exact congrArg (· ++ more) feedbackQueue_close
    · cases fin with
      | false =>
        refine ⟨hexact.piece, fun _ habandoned _ => ?_⟩
        exact hexact.boundHeldStream.resolve_left habandoned
      | true =>
        refine Traced.of_closed hexact.piece ?_
        rw [closed_finish, closed_boundHeldStream, closed_tryDecodeConnect]
        exact mem_closed_close_true

theorem Traced.onStreamReset (ht : Traced w sid got queued) :
    Traced (w.onStreamReset sid) sid got queued :=
  Traced.of_closed ht.piece mem_closed_close_true

/-! ### The other streams -/

/-- The sessions agree about one stream. -/
structure SameAt (s : StreamId) (w w' : WebTransportServer) : Prop where
  closed : s ∈ w'.closed ↔ s ∈ w.closed
  abandoned : s ∈ w'.abandonedStreams ↔ s ∈ w.abandonedStreams
  stripped : s ∈ w'.wtHeaderStripped ↔ s ∈ w.wtHeaderStripped
  bufs : w'.streamBufs.get? s = w.streamBufs.get? s

variable {w' w'' : WebTransportServer}

theorem SameAt.refl : SameAt other w w := ⟨Iff.rfl, Iff.rfl, Iff.rfl, rfl⟩

theorem SameAt.trans (h : SameAt other w w') (h' : SameAt other w' w'') : SameAt other w w'' :=
  ⟨h'.closed.trans h.closed, h'.abandoned.trans h.abandoned, h'.stripped.trans h.stripped,
    h'.bufs.trans h.bufs⟩

section Frame

variable (hne : other ≠ sid)
include hne

theorem sameAt_close : SameAt other w (w.close sid fin) := by
  cases fin with
  | false => exact SameAt.refl
  | true => exact ⟨by simp [close, hne], Iff.rfl, Iff.rfl, rfl⟩

theorem sameAt_extend : SameAt other w (w.extend sid bytes) :=
  ⟨Iff.rfl, Iff.rfl, Iff.rfl, Dict.get?_insert_ne _ _ hne⟩

theorem sameAt_streamEnded : SameAt other w (w.streamEnded sid) :=
  ⟨Iff.rfl, by simp [streamEnded, hne], by simp [streamEnded, hne], Dict.get?_erase_ne _ hne⟩

theorem sameAt_finish : SameAt other w (w.finish sid fin) := by
  unfold finish
  split_ifs
  · exact sameAt_streamEnded hne
  · exact SameAt.refl

theorem sameAt_boundHeldStream : SameAt other w (w.boundHeldStream sid) := by
  unfold boundHeldStream
  split_ifs
  · exact ⟨Iff.rfl, by simp [hne], Iff.rfl, Dict.get?_erase_ne _ hne⟩
  · exact SameAt.refl

theorem sameAt_tryDecodeConnect : SameAt other w (w.tryDecodeConnect sid outcome) := by
  have herase : (w.streamBufs.erase sid).get? other = w.streamBufs.get? other :=
    Dict.get?_erase_ne _ hne
  unfold tryDecodeConnect routeStreamToFeedback
  split_ifs
  · cases w.routable sid with
    | none => exact SameAt.refl
    | some out => exact ⟨Iff.rfl, Iff.rfl, by simp [pushFeedback, hne], herase⟩
  · cases outcome with
    | accepted | rejected => exact ⟨Iff.rfl, Iff.rfl, Iff.rfl, herase⟩
    | pending => exact SameAt.refl

/-- A read of one stream leaves the others as they are. -/
theorem sameAt_onStreamReadable :
    SameAt other w (w.onStreamReadable sid bytes fin outcome) := by
  unfold onStreamReadable
  split_ifs
  · exact sameAt_streamEnded hne
  · exact (sameAt_close hne).trans (sameAt_finish hne)
  · exact sameAt_close hne
  · exact ((((sameAt_close hne).trans (sameAt_extend hne)).trans
      (sameAt_tryDecodeConnect hne)).trans (sameAt_boundHeldStream hne)).trans (sameAt_finish hne)

theorem sameAt_onStreamReset : SameAt other w (w.onStreamReset sid) :=
  (sameAt_close hne).trans (sameAt_streamEnded hne)

end Frame

/-! ### Before and after the session is accepted -/

/-- Nothing about the acceptance of the session changes. -/
structure Still (w w' : WebTransportServer) : Prop where
  connected : w'.connected = w.connected
  session : w'.sessionStream = w.sessionStream
  stripped : w'.wtHeaderStripped ⊆ w.wtHeaderStripped

theorem Still.refl : Still w w := ⟨rfl, rfl, subset_rfl⟩

theorem Still.trans (h : Still w w') (h' : Still w' w'') : Still w w'' :=
  ⟨h'.connected.trans h.connected, h'.session.trans h.session, h'.stripped.trans h.stripped⟩

theorem still_close : Still w (w.close sid fin) := by
  cases fin with
  | false => exact Still.refl
  | true => exact ⟨rfl, rfl, subset_rfl⟩

theorem still_streamEnded : Still w (w.streamEnded sid) := ⟨rfl, rfl, erase_subset _ _⟩

theorem still_finish : Still w (w.finish sid fin) := by
  unfold finish
  split_ifs
  · exact still_streamEnded
  · exact Still.refl

theorem still_boundHeldStream : Still w (w.boundHeldStream sid) := by
  unfold boundHeldStream
  split_ifs
  · exact ⟨rfl, rfl, subset_rfl⟩
  · exact Still.refl

/-- What a read of `sid` does to the acceptance of the session: nothing, route bytes of an
accepted session, or accept it on this stream. -/
def Accepts (sid : StreamId) (w w' : WebTransportServer) : Prop :=
  Still w w' ∨
  (w.connected = true ∧ w'.connected = true ∧ w'.sessionStream = w.sessionStream) ∨
  (w.connected = false ∧ w'.connected = true ∧ w'.sessionStream = some sid)

theorem Accepts.between (hbefore : Still w w') (h : Accepts sid w' w'') {w₃ : WebTransportServer}
    (hafter : Still w'' w₃) : Accepts sid w w₃ := by
  rcases h with h | ⟨hconn, hconn', hsession⟩ | ⟨hconn, hconn', hsession⟩
  · exact .inl ((hbefore.trans h).trans hafter)
  · exact .inr (.inl ⟨hbefore.connected ▸ hconn, hafter.connected.trans hconn',
      (hafter.session.trans hsession).trans hbefore.session⟩)
  · exact .inr (.inr ⟨hbefore.connected ▸ hconn, hafter.connected.trans hconn',
      hafter.session.trans hsession⟩)

theorem accepts_tryDecodeConnect : Accepts sid w (w.tryDecodeConnect sid outcome) := by
  unfold tryDecodeConnect routeStreamToFeedback
  split_ifs with hconn
  · cases w.routable sid with
    | none => exact .inl Still.refl
    | some out => exact .inr (.inl ⟨hconn, hconn, rfl⟩)
  · cases outcome with
    | accepted => exact .inr (.inr ⟨Bool.not_eq_true _ ▸ hconn, rfl, rfl⟩)
    | pending => exact .inl Still.refl
    | rejected => exact .inl ⟨rfl, rfl, subset_rfl⟩

theorem accepts_onStreamReadable (w : WebTransportServer) (sid : StreamId) (bytes : Bytes)
    (fin : Bool) (outcome : ConnectOutcome) :
    Accepts sid w (w.onStreamReadable sid bytes fin outcome) := by
  have hextend : Still (w.close sid fin) ((w.close sid fin).extend sid bytes) :=
    ⟨rfl, rfl, subset_rfl⟩
  unfold onStreamReadable
  split_ifs
  · exact .inl still_streamEnded
  · exact .inl (still_close.trans still_finish)
  · exact .inl still_close
  · exact accepts_tryDecodeConnect.between (still_close.trans hextend)
      (still_boundHeldStream.trans still_finish)

theorem Still.ordered (h : Still w w') (hord : Ordered w) : Ordered w' := by
  intro hconn
  rw [h.connected] at hconn
  obtain ⟨hnone, hempty⟩ := hord hconn
  exact ⟨h.session.trans hnone, subset_empty.1 (hempty ▸ h.stripped)⟩

theorem Accepts.ordered (h : Accepts sid w w') (hord : Ordered w) : Ordered w' := by
  rcases h with h | ⟨-, hconn, -⟩ | ⟨-, hconn, -⟩
  · exact h.ordered hord
  · exact fun hfalse => absurd hconn (by simp [hfalse])
  · exact fun hfalse => absurd hconn (by simp [hfalse])

theorem still_onStreamReset : Still w (w.onStreamReset sid) := still_close.trans still_streamEnded

theorem Accepts.connected (h : Accepts sid w w') (hconn : w.connected = true) :
    w'.connected = true := by
  rcases h with h | ⟨-, hconn', -⟩ | ⟨-, hconn', -⟩
  · exact h.connected.trans hconn
  · exact hconn'
  · exact hconn'

theorem Accepts.sessionStream (h : Accepts sid w w') (hord : Ordered w)
    (hsome : w.sessionStream = some other) : w'.sessionStream = some other := by
  rcases h with h | ⟨-, -, hsession⟩ | ⟨hconn, -, -⟩
  · exact h.session.trans hsome
  · exact hsession.trans hsome
  · rw [(hord hconn).1] at hsome
    cases hsome

theorem Traced.of_sameAt (ht : Traced w other got queued) (hsame : SameAt other w w')
    (hsession : w.sessionStream = some other → w'.sessionStream = some other) :
    Traced w' other got queued := by
  refine ⟨ht.piece, fun hclosed habandoned hother => ?_⟩
  obtain ⟨hparts, hstripped⟩ := ht.exact_ (fun h => hclosed (hsame.closed.2 h))
    (fun h => habandoned (hsame.abandoned.2 h)) (fun h => hother (hsession h))
  have hheld : w'.held other = w.held other := by rw [held, held, hsame.bufs]
  exact ⟨hheld ▸ hparts, fun h => hstripped fun hmem => h (hsame.stripped.2 hmem)⟩

theorem Traced.onStreamReadable_ne (ht : Traced w other got queued) (hord : Ordered w)
    (hne : other ≠ sid) : Traced (w.onStreamReadable sid bytes fin outcome) other got queued :=
  ht.of_sameAt (sameAt_onStreamReadable hne)
    fun h => (accepts_onStreamReadable w sid bytes fin outcome).sessionStream hord h

end WebTransportServer

end Ghostframe.Feedback
