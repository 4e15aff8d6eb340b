import Ghostframe.Feedback.Confined

/-!
# The feedback stream of a session, however its bytes are read

`Feed` is a connection whose feedback stream is a HELLO and then well-formed messages,
after a WebTransport stream header or none. The session finds the header whatever reads
it is spread over, and queues what follows it.

* `Feed.stripHeader_of_prefix`: the header is found once it is complete, and not before;
* `Tracks`: the session has queued what was read, less the header; reads of the feedback
  stream and of the stream of the CONNECT request keep it.
-/

namespace Ghostframe.Feedback

open Transport Dict Finset List WebTransportServer
open Function (update update_self update_of_ne)

/-! ### Variable-length integers and the header -/

theorem varIntLen_le (first : UInt8) : varIntLen first ≤ 8 := by
  have hlt : first.toNat / 64 ≤ 3 := by
    have := first.toNat_lt
    omega
  exact Nat.pow_le_pow_right (by decide) hlt

/-- A variable-length integer that is the whole of a byte string. -/
theorem varIntDecode_whole {num : Bytes} {v : ℕ} (h : varIntDecode num = some (v, [])) :
    ∃ first rest, num = first :: rest ∧ num.length = varIntLen first := by
  cases num with
  | nil => simp [varIntDecode] at h
  | cons first rest =>
    refine ⟨first, rest, rfl, ?_⟩
    simp only [varIntDecode] at h
    split_ifs at h with hlen
    have hdrop : ((first :: rest).drop (varIntLen first)).length = 0 := by
      rw [(Prod.mk.inj (Option.some.inj h)).2]
      rfl
    rw [length_drop] at hdrop
    omega

theorem varIntDecode_append {num : Bytes} {v : ℕ} (h : varIntDecode num = some (v, []))
    (rest : Bytes) : varIntDecode (num ++ rest) = some (v, rest) := by
  obtain ⟨first, tl, rfl, hlen⟩ := varIntDecode_whole h
  simp only [varIntDecode] at h
  rw [if_neg (by omega), Option.some.injEq, Prod.mk.injEq] at h
  rw [cons_append]
  simp only [varIntDecode]
  rw [← cons_append, if_neg (by rw [length_append]; omega), ← hlen, take_left,
    drop_left]
  rw [← hlen, take_length] at h
  rw [h.1]

theorem varIntDecode_of_part {num part : Bytes} {v : ℕ} (h : varIntDecode num = some (v, []))
    (hpre : part <+: num) (hlt : part.length < num.length) : varIntDecode part = none := by
  obtain ⟨first, tl, rfl, hlen⟩ := varIntDecode_whole h
  cases part with
  | nil => rfl
  | cons a part =>
    obtain rfl : a = first := (cons_prefix_cons.1 hpre).1
    simp only [varIntDecode]
    rw [if_pos (by omega)]

/-- The header of a WebTransport stream: its type and the session, two variable-length
integers. -/
def IsHeader (header : Bytes) : Prop :=
  ∃ kind session v, header = kind ++ session ∧
    varIntDecode kind = some (webTransportBiStream, []) ∧ varIntDecode session = some (v, [])

theorem IsHeader.length_le {header : Bytes} (h : IsHeader header) : header.length ≤ 16 := by
  obtain ⟨kind, session, v, rfl, hkind, hsession⟩ := h
  obtain ⟨first, -, -, hk⟩ := varIntDecode_whole hkind
  obtain ⟨first', -, -, hs⟩ := varIntDecode_whole hsession
  have := varIntLen_le first
  have := varIntLen_le first'
  rw [length_append]
  omega

/-- A whole header is stripped. -/
theorem IsHeader.stripHeader_append {header : Bytes} (h : IsHeader header) (rest : Bytes) :
    stripHeader (header ++ rest) = some rest := by
  obtain ⟨kind, session, v, rfl, hkind, hsession⟩ := h
  rw [stripHeader, append_assoc, varIntDecode_append hkind]
  dsimp only
  rw [if_pos rfl, varIntDecode_append hsession]
  rfl

/-- A part of a header is waited for. -/
theorem IsHeader.stripHeader_of_part {header part : Bytes} (h : IsHeader header)
    (hpre : part <+: header) (hlt : part.length < header.length) :
    stripHeader part = none := by
  obtain ⟨kind, session, v, rfl, hkind, hsession⟩ := h
  unfold stripHeader
  by_cases hlen : part.length < kind.length
  · have hkindpart : part <+: kind :=
      prefix_of_prefix_length_le hpre (prefix_append _ _) hlen.le
    rw [varIntDecode_of_part hkind hkindpart hlen]
  · -- the type is complete, the session is not
    have hfull : kind <+: part :=
      prefix_of_prefix_length_le (prefix_append _ _) hpre (by omega)
    obtain ⟨rest, rfl⟩ := hfull
    have hrest : rest <+: session := (prefix_append_right_inj kind).1 hpre
    have hshort : rest.length < session.length := by
      rw [length_append, length_append] at hlt
      omega
    rw [varIntDecode_append hkind]
    dsimp only
    rw [if_pos rfl, varIntDecode_of_part hsession hrest hshort]
    rfl

/-- The native client sends no header, and its HELLO is not taken for one. -/
theorem stripHeader_of_hello {buf : Bytes} (h : byteAt buf 0 = helloMsgType) :
    stripHeader buf = some buf := by
  cases buf with
  | nil => simp [byteAt, helloMsgType] at h
  | cons first rest =>
    obtain rfl : first = helloMsgType := h
    rfl

/-! ### A well-behaved connection -/

/-- A connection whose feedback stream `sid` carries, after its header, the messages of
`script`, a HELLO first; the session was accepted on `connectStream`. -/
structure Feed where
  conn : Conn
  connectStream : StreamId
  sid : StreamId
  header : Bytes
  script : List (Bytes × FeedbackMsg)
  distinct : sid ≠ connectStream
  header_ok : header = [] ∨ IsHeader header
  wire : ∀ e ∈ script, IsWire e.1 e.2
  hello : ∃ raw caps rest, script = (raw, .hello caps) :: rest

namespace Feed

/-- The bytes of some messages. -/
def bytesOf (script : List (Bytes × FeedbackMsg)) : Bytes := (script.map Prod.fst).flatten

@[simp] theorem bytesOf_append (done rest : List (Bytes × FeedbackMsg)) :
    bytesOf (done ++ rest) = bytesOf done ++ bytesOf rest := by
  simp [bytesOf]

@[simp] theorem bytesOf_cons (e : Bytes × FeedbackMsg) (rest : List (Bytes × FeedbackMsg)) :
    bytesOf (e :: rest) = e.1 ++ bytesOf rest := rfl

/-- The bytes of the stream. -/
def text (f : Feed) : Bytes := f.header ++ bytesOf f.script

theorem length_header_le (f : Feed) : f.header.length ≤ 16 := by
  rcases f.header_ok with h | h
  · rw [h]
    decide
  · exact h.length_le

/-- What follows the header starts with the type of HELLO. -/
theorem byteAt_zero_script (f : Feed) {part : Bytes} (hpre : part <+: bytesOf f.script)
    (hne : part ≠ []) : byteAt part 0 = helloMsgType := by
  obtain ⟨raw, caps, rest, hscript⟩ := f.hello
  have hwire : IsWire raw (.hello caps) := f.wire (raw, .hello caps) (by rw [hscript]; simp)
  obtain ⟨more, hmore⟩ := hpre
  have hpos := hwire.length_pos
  calc byteAt part 0 = byteAt (part ++ more) 0 :=
        (byteAt_append more (length_pos_iff.2 hne)).symm
    _ = byteAt (raw ++ bytesOf rest) 0 := by rw [hmore, hscript, bytesOf_cons]
    _ = byteAt raw 0 := byteAt_append _ (by omega)
    _ = helloMsgType := hwire.byteAt_zero

/-- The header is found as soon as it is complete, and not before. -/
theorem stripHeader_of_prefix (f : Feed) {got : Bytes} (hpre : got <+: f.text) (hne : got ≠ []) :
    stripHeader got =
      if got.length < f.header.length then none else some (got.drop f.header.length) := by
  split_ifs with hlt
  · have hpart : got <+: f.header :=
      prefix_of_prefix_length_le hpre (prefix_append _ _) hlt.le
    rcases f.header_ok with h | h
    · rw [h] at hlt
      exact absurd hlt (Nat.not_lt_zero _)
    · exact h.stripHeader_of_part hpart hlt
  · have hfull : f.header <+: got :=
      prefix_of_prefix_length_le (prefix_append _ _) hpre (by omega)
    obtain ⟨rest, rfl⟩ := hfull
    rw [drop_left]
    rcases f.header_ok with h | h
    · have hrest : rest <+: bytesOf f.script := (prefix_append_right_inj _).1 hpre
      rw [h, nil_append] at hne ⊢
      exact stripHeader_of_hello (f.byteAt_zero_script hrest hne)
    · exact h.stripHeader_append rest

end Feed

/-! ### What the session has queued -/

/-- The session `w` has read `got` from the feedback stream and queued `queued`. -/
structure Tracks (f : Feed) (w : WebTransportServer) (got queued : Bytes) : Prop where
  skipped : queued = got.drop f.header.length
  unaccepted : w.connected = false → got = [] ∧ f.sid ∉ w.wtHeaderStripped ∧
    ∀ s, s ≠ f.connectStream → w.streamBufs.get? s = none
  accepted : w.connected = true → w.sessionStream = some f.connectStream ∧
    ∀ s, s ≠ f.sid → w.streamBufs.get? s = none
  kept : f.sid ∉ w.abandonedStreams
  stripped : f.sid ∉ w.closed → f.sid ∈ w.wtHeaderStripped →
    f.header.length ≤ got.length ∧ w.held f.sid = []
  buffered : f.sid ∉ w.closed → f.sid ∉ w.wtHeaderStripped →
    w.held f.sid = got ∧ (got = [] ∨ got.length < f.header.length)

namespace Tracks

open WebTransportServer

variable {f : Feed} {w w' : WebTransportServer} {got queued bytes : Bytes} {fin : Bool}
  {outcome : ConnectOutcome}

/-- A step that leaves the feedback stream as it is. -/
theorem of_sameAt (ht : Tracks f w got queued) (hsame : SameAt f.sid w w')
    (hunaccepted : w'.connected = false → w.connected = false ∧
      ∀ s, s ≠ f.connectStream → w'.streamBufs.get? s = none)
    (haccepted : w'.connected = true → w'.sessionStream = some f.connectStream ∧
      ∀ s, s ≠ f.sid → w'.streamBufs.get? s = none) : Tracks f w' got queued := by
  have hheld : w'.held f.sid = w.held f.sid := by rw [held, held, hsame.bufs]
  refine ⟨ht.skipped, fun hconn => ?_, haccepted, fun h => ht.kept (hsame.abandoned.1 h),
    fun hopen hmem => ?_, fun hopen hmem => ?_⟩
  · obtain ⟨hbefore, hbufs⟩ := hunaccepted hconn
    obtain ⟨hgot, hfresh, -⟩ := ht.unaccepted hbefore
    exact ⟨hgot, fun h => hfresh (hsame.stripped.1 h), hbufs⟩
  · rw [hheld]
    exact ht.stripped (fun h => hopen (hsame.closed.2 h)) (hsame.stripped.1 hmem)
  · rw [hheld]
    exact ht.buffered (fun h => hopen (hsame.closed.2 h)) fun h => hmem (hsame.stripped.2 h)

theorem of_closed (hskipped : queued = got.drop f.header.length) (hconn : w'.connected = true)
    (hsession : w'.sessionStream = some f.connectStream)
    (hbufs : ∀ s, s ≠ f.sid → w'.streamBufs.get? s = none) (hkept : f.sid ∉ w'.abandonedStreams)
    (hclosed : f.sid ∈ w'.closed) : Tracks f w' got queued :=
  ⟨hskipped, fun h => absurd hconn (by simp [h]), fun _ => ⟨hsession, hbufs⟩, hkept,
    fun h => absurd hclosed h, fun h => absurd hclosed h⟩

/-- With one stream in the buffers, the total is what that stream holds. -/
theorem heldTotal_le {sid : StreamId} (h : ∀ s, s ≠ sid → w.streamBufs.get? s = none) :
    w.heldTotal ≤ (w.held sid).length := by
  have hkey : ∀ e ∈ w.streamBufs.toList, e.1 = sid := by
    intro e he
    by_contra hne
    have := (mem_toList_iff _ e.1 e.2).1 he
    rw [h e.1 hne] at this
    cases this
  have hnodup := w.streamBufs.nodup_fst_toList
  unfold heldTotal
  cases hlist : w.streamBufs.toList with
  | nil => exact Nat.zero_le _
  | cons e rest =>
    rw [hlist] at hkey hnodup
    have hrest : rest = [] := by
      refine eq_nil_iff_forall_not_mem.2 fun e' he' => ?_
      rw [List.map_cons, List.nodup_cons] at hnodup
      refine hnodup.1 (mem_map.2 ⟨e', he', ?_⟩)
      rw [hkey e' (mem_cons_of_mem _ he'), hkey e mem_cons_self]
    have hget : w.streamBufs.get? sid = some e.2 := by
      rw [← hkey e mem_cons_self, ← mem_toList_iff, hlist]
      exact mem_cons_self
    rw [hrest, held, hget]
    simp

/-- The little that is held of the stream is never too much. -/
theorem boundHeldStream_eq (hbufs : ∀ s, s ≠ f.sid → w.streamBufs.get? s = none)
    (hheld : (w.held f.sid).length ≤ 16) : w.boundHeldStream f.sid = w := by
  have htotal := heldTotal_le hbufs
  unfold boundHeldStream
  rw [if_neg]
  rintro ⟨-, hlong | hlong⟩
  · have : maxHeldStreamBytes = 16384 := rfl
    omega
  · have : maxHeldTotalBytes = 65536 := rfl
    omega

theorem close (ht : Tracks f w got queued) (hconn : w.connected = true) :
    Tracks f (w.close f.sid fin) got queued := by
  cases fin with
  | false => exact ht
  | true =>
    obtain ⟨hsession, hbufs⟩ := ht.accepted hconn
    exact of_closed ht.skipped hconn hsession hbufs ht.kept mem_closed_close_true

theorem finish (ht : Tracks f w got queued) (hconn : w.connected = true)
    (hclosed : fin = true → f.sid ∈ w.closed) : Tracks f (w.finish f.sid fin) got queued := by
  cases fin with
  | false =>
    exact ht
  | true =>
    obtain ⟨hsession, hbufs⟩ := ht.accepted hconn
    have hother : w.sessionStream ≠ some f.sid := by
      rw [hsession]
      exact fun h => f.distinct (Option.some.inj h).symm
    have hends : w.finish f.sid true = w.streamEnded f.sid := if_pos ⟨rfl, hother⟩
    rw [hends]
    refine of_closed ht.skipped hconn hsession (fun s hs => ?_) (fun h => ht.kept ?_) (hclosed rfl)
    · exact (get?_erase_ne _ hs).trans (hbufs s hs)
    · exact mem_of_mem_erase h

theorem held_pushFeedback {out : Bytes} : (w.pushFeedback f.sid out).held f.sid = [] := by
  show ((w.streamBufs.erase f.sid).get? f.sid).getD [] = []
  rw [get?_erase_self]
  rfl

/-- Routing all that is held, once the header is out of the way. -/
theorem pushFeedback {out : Bytes} (hconn : w.connected = true)
    (hsession : w.sessionStream = some f.connectStream)
    (hbufs : ∀ s, s ≠ f.sid → w.streamBufs.get? s = none) (hkept : f.sid ∉ w.abandonedStreams)
    (hlong : f.header.length ≤ got.length) (hskipped : queued ++ out = got.drop f.header.length) :
    Tracks f (w.pushFeedback f.sid out) got (queued ++ out) := by
  refine ⟨hskipped, fun h => absurd hconn ?_, fun _ => ⟨hsession, fun s hs => ?_⟩, hkept,
    fun _ _ => ⟨hlong, held_pushFeedback⟩,
    fun _ hfresh => absurd (mem_insert_self _ _) hfresh⟩
  · rw [show w.connected = false from h]
    exact Bool.false_ne_true
  · exact (get?_erase_ne _ hs).trans (hbufs s hs)

/-- The buffer after the read, routed: the state and what it adds to the queue. -/
theorem routeStreamToFeedback (ht : Tracks f w got queued) (w₁ : WebTransportServer)
    (hopen : f.sid ∉ w.closed) (hne : bytes ≠ [])
    (hpre : got ++ bytes <+: f.text) (hconn₁ : w₁.connected = true)
    (hsession₁ : w₁.sessionStream = some f.connectStream)
    (hbufs₁ : ∀ s, s ≠ f.sid → w₁.streamBufs.get? s = none)
    (hkept₁ : f.sid ∉ w₁.abandonedStreams) (hstripped₁ : w₁.wtHeaderStripped = w.wtHeaderStripped)
    (hheld₁ : w₁.held f.sid = w.held f.sid ++ bytes) :
    ∃ more, Queues w₁ (w₁.routeStreamToFeedback f.sid) more ∧
      Tracks f (w₁.routeStreamToFeedback f.sid) (got ++ bytes) (queued ++ more.flatten) ∧
      (w₁.routeStreamToFeedback f.sid).boundHeldStream f.sid =
        w₁.routeStreamToFeedback f.sid := by
  have hpush : ∀ out, w₁.routable f.sid = some out → f.header.length ≤ (got ++ bytes).length →
      queued ++ out = (got ++ bytes).drop f.header.length →
      ∃ more, Queues w₁ (w₁.routeStreamToFeedback f.sid) more ∧
        Tracks f (w₁.routeStreamToFeedback f.sid) (got ++ bytes) (queued ++ more.flatten) ∧
        (w₁.routeStreamToFeedback f.sid).boundHeldStream f.sid =
          w₁.routeStreamToFeedback f.sid := by
    intro out hout hlong hskipped
    have hroute : w₁.routeStreamToFeedback f.sid = w₁.pushFeedback f.sid out := by
      rw [WebTransportServer.routeStreamToFeedback, hout]
    have ht' := Tracks.pushFeedback hconn₁ hsession₁ hbufs₁ hkept₁ hlong hskipped
    rw [hroute]
    refine ⟨if out = [] then [] else [out], ?_, ?_, ?_⟩
    · unfold Queues WebTransportServer.pushFeedback
      split_ifs
      · exact (append_nil _).symm
      · rfl
    · rw [flatten_if_nil]
      exact ht'
    · refine boundHeldStream_eq (ht'.accepted hconn₁).2 ?_
      rw [held_pushFeedback]
      exact Nat.zero_le _
  by_cases hmem : f.sid ∈ w.wtHeaderStripped
  · obtain ⟨hlong, hempty⟩ := ht.stripped hopen hmem
    have hlong' : f.header.length ≤ (got ++ bytes).length := by
      rw [length_append]
      omega
    refine hpush bytes ?_ hlong' ?_
    · rw [routable, if_pos (hstripped₁ ▸ hmem), hheld₁, hempty]
      rfl
    · rw [ht.skipped, drop_append_of_le_length hlong]
  · obtain ⟨hheld, hshort⟩ := ht.buffered hopen hmem
    have hgot : got ++ bytes ≠ [] := fun h => hne (append_eq_nil_iff.1 h).2
    have hroutable : w₁.routable f.sid = if (got ++ bytes).length < f.header.length then none
        else some ((got ++ bytes).drop f.header.length) := by
      rw [routable, if_neg (hstripped₁ ▸ hmem), hheld₁, hheld, f.stripHeader_of_prefix hpre hgot]
    by_cases hlt : (got ++ bytes).length < f.header.length
    · -- the header is still split
      have hroute : w₁.routeStreamToFeedback f.sid = w₁ := by
        rw [WebTransportServer.routeStreamToFeedback, hroutable, if_pos hlt]
      have hnone : queued = (got ++ bytes).drop f.header.length := by
        rw [ht.skipped, drop_of_length_le hlt.le, drop_of_length_le]
        rw [length_append] at hlt
        omega
      rw [hroute]
      refine ⟨[], Queues.same rfl, ?_, ?_⟩
      · rw [flatten_nil, append_nil]
        exact ⟨hnone, fun h => absurd hconn₁ (by simp [h]), fun _ => ⟨hsession₁, hbufs₁⟩, hkept₁,
          fun _ h => absurd (hstripped₁ ▸ h) hmem,
          fun _ _ => ⟨hheld₁.trans (by rw [hheld]), .inr hlt⟩⟩
      · refine boundHeldStream_eq hbufs₁ ?_
        rw [hheld₁, hheld]
        exact hlt.le.trans f.length_header_le
    · have hnil : queued = [] := by
        rw [ht.skipped]
        rcases hshort with h | h
        · rw [h, drop_nil]
        · exact drop_of_length_le h.le
      refine hpush _ (hroutable.trans (if_neg hlt)) (by omega) ?_
      rw [hnil, nil_append]

/-- A read of the feedback stream. -/
theorem onStreamReadable (ht : Tracks f w got queued) (hconn : w.connected = true)
    (hpre : (if f.sid ∈ w.closed then got else got ++ bytes) <+: f.text) :
    ∃ more, Queues w (w.onStreamReadable f.sid bytes fin outcome) more ∧
      Tracks f (w.onStreamReadable f.sid bytes fin outcome)
        (if f.sid ∈ w.closed then got else got ++ bytes) (queued ++ more.flatten) := by
  obtain ⟨hsession, hbufs⟩ := ht.accepted hconn
  have hother : w.sessionStream ≠ some f.sid := by
    rw [hsession]
    exact fun h => f.distinct (Option.some.inj h).symm
  have hcloses : fin = true → f.sid ∈ (w.close f.sid fin).closed := by
    rintro rfl
    exact mem_closed_close_true
  have hconn' : (w.close f.sid fin).connected = true := still_close.connected.trans hconn
  unfold WebTransportServer.onStreamReadable
  split_ifs at hpre ⊢ with hclosed hempty hignored
  · refine ⟨[], Queues.same rfl, ?_⟩
    rw [flatten_nil, append_nil]
    refine of_closed ht.skipped hconn hsession (fun s hs => ?_) (fun h => ht.kept ?_) hclosed
    · exact (get?_erase_ne _ hs).trans (hbufs s hs)
    · exact mem_of_mem_erase h
  · refine ⟨[], Queues.same (by simp), ?_⟩
    rw [flatten_nil, append_nil, hempty, append_nil]
    exact (ht.close hconn).finish hconn' hcloses
  · rcases hignored with h | h
    · exact absurd h hother
    · exact absurd h ht.kept
  · have hparts : (w.close f.sid fin).streamBufs = w.streamBufs ∧
        (w.close f.sid fin).wtHeaderStripped = w.wtHeaderStripped := by
      cases fin <;> exact ⟨rfl, rfl⟩
    have hread : (w.close f.sid fin).held f.sid = w.held f.sid := by rw [held, held, hparts.1]
    have hclose : Tracks f (w.close f.sid fin) got queued := ht.close hconn
    obtain ⟨hsession', hbufs'⟩ := hclose.accepted hconn'
    have hextend : ∀ s, s ≠ f.sid →
        ((w.close f.sid fin).extend f.sid bytes).streamBufs.get? s = none := by
      intro s hs
      exact (get?_insert_ne _ _ hs).trans (hbufs' s hs)
    obtain ⟨more, hqueues, htracks, hbound⟩ :=
      ht.routeStreamToFeedback ((w.close f.sid fin).extend f.sid bytes) hclosed hempty hpre
        hconn' hsession' hextend hclose.kept hparts.2 (by rw [held_extend, hread])
    have hroute : ((w.close f.sid fin).extend f.sid bytes).tryDecodeConnect f.sid outcome =
        ((w.close f.sid fin).extend f.sid bytes).routeStreamToFeedback f.sid := if_pos hconn'
    rw [hroute, hbound]
    refine ⟨more, ?_, htracks.finish ?_ fun hfin => ?_⟩
    · rw [Queues, feedbackQueue_finish, hqueues]
      exact congrArg (· ++ more) feedbackQueue_close
    · rw [← hroute]
      exact accepts_tryDecodeConnect.connected hconn'
    · rw [← hroute, closed_tryDecodeConnect]
      exact hcloses hfin

theorem get?_erase_eq_none {m : Dict StreamId Bytes} {s k : StreamId} (h : m.get? k = none) :
    (m.erase s).get? k = none := by
  rw [get?_erase]
  split_ifs
  · rfl
  · exact h

theorem get?_finish_eq_none {s k : StreamId} (h : w.streamBufs.get? k = none) :
    (w.finish s fin).streamBufs.get? k = none := by
  unfold WebTransportServer.finish
  split_ifs
  · exact get?_erase_eq_none h
  · exact h

theorem get?_boundHeldStream_eq_none {s k : StreamId} (h : w.streamBufs.get? k = none) :
    (w.boundHeldStream s).streamBufs.get? k = none := by
  unfold boundHeldStream
  split_ifs
  · exact get?_erase_eq_none h
  · exact h

/-- The stream of the CONNECT request queues nothing, and is not buffered once the session
is accepted. -/
theorem connectStream_read (ht : Tracks f w got queued) (bytes : Bytes) (fin : Bool)
    (outcome : ConnectOutcome) :
    let w' := w.onStreamReadable f.connectStream bytes fin outcome
    Queues w w' [] ∧ (w'.connected = true → w'.streamBufs.get? f.connectStream = none) := by
  dsimp only
  have hgone : w.connected = true → w.streamBufs.get? f.connectStream = none :=
    fun h => (ht.accepted h).2 _ f.distinct.symm
  have hclose : (w.close f.connectStream fin).streamBufs = w.streamBufs ∧
      (w.close f.connectStream fin).connected = w.connected := by
    cases fin <;> exact ⟨rfl, rfl⟩
  unfold WebTransportServer.onStreamReadable
  split_ifs with hclosed hempty hignored
  · exact ⟨Queues.same rfl, fun h => get?_erase_eq_none (hgone h)⟩
  · refine ⟨Queues.same (by simp), fun h => get?_finish_eq_none ?_⟩
    rw [hclose.1]
    exact hgone ((still_finish.connected.trans hclose.2).symm.trans h)
  · refine ⟨Queues.same (by simp), fun h => ?_⟩
    rw [hclose.1]
    exact hgone (hclose.2.symm.trans h)
  · -- the request is decoded, so no session was accepted yet
    have hconn : w.connected = false := by
      by_contra hconn
      exact hignored (.inl (ht.accepted (Bool.not_eq_false _ ▸ hconn)).1)
    have hconn' : ((w.close f.connectStream fin).extend f.connectStream bytes).connected = false :=
      hclose.2.trans hconn
    unfold tryDecodeConnect
    rw [if_neg (by simp [hconn'])]
    cases outcome with
    | accepted =>
      refine ⟨?_, fun _ => get?_finish_eq_none (get?_boundHeldStream_eq_none ?_)⟩
      · rw [Queues, feedbackQueue_finish, feedbackQueue_boundHeldStream, append_nil]
        exact feedbackQueue_close
      · exact get?_erase_self _ _
    | pending =>
      refine ⟨?_, fun h => absurd h ?_⟩
      · rw [Queues, feedbackQueue_finish, feedbackQueue_boundHeldStream, append_nil]
        exact feedbackQueue_close
      · rw [still_finish.connected, still_boundHeldStream.connected, hconn']
        exact Bool.false_ne_true
    | rejected =>
      refine ⟨?_, fun h => absurd h ?_⟩
      · rw [Queues, feedbackQueue_finish, feedbackQueue_boundHeldStream, append_nil]
        exact feedbackQueue_close
      · rw [still_finish.connected, still_boundHeldStream.connected]
        show ((w.close f.connectStream fin).extend f.connectStream bytes).connected ≠ true
        rw [hconn']
        exact Bool.false_ne_true

/-- A read of the stream of the CONNECT request. -/
theorem onStreamReadable_connect (ht : Tracks f w got queued) :
    Tracks f (w.onStreamReadable f.connectStream bytes fin outcome) got queued := by
  have haccepts := accepts_onStreamReadable w f.connectStream bytes fin outcome
  have hbuf := (ht.connectStream_read bytes fin outcome).2
  have hsame : ∀ s, s ≠ f.connectStream →
      SameAt s w (w.onStreamReadable f.connectStream bytes fin outcome) :=
    fun s hs => sameAt_onStreamReadable hs
  refine ht.of_sameAt (hsame f.sid f.distinct) (fun h => ?_) fun h => ⟨?_, fun s hs => ?_⟩
  · have hbefore : w.connected = false := by
      by_contra hconn
      rw [haccepts.connected (Bool.not_eq_false _ ▸ hconn)] at h
      cases h
    exact ⟨hbefore, fun s hs => (hsame s hs).bufs.trans ((ht.unaccepted hbefore).2.2 s hs)⟩
  · rcases haccepts with hstill | ⟨hconn, -, hsession⟩ | ⟨-, -, hsession⟩
    · exact hstill.session.trans (ht.accepted (hstill.connected ▸ h)).1
    · exact hsession.trans (ht.accepted hconn).1
    · exact hsession
  · by_cases hc : s = f.connectStream
    · rw [hc]
      exact hbuf h
    · rw [(hsame s hc).bufs]
      cases hconn : w.connected with
      | true => exact (ht.accepted hconn).2 s hs
      | false => exact (ht.unaccepted hconn).2.2 s hc

theorem onStreamReset (ht : Tracks f w got queued) (s : StreamId) :
    Tracks f (w.onStreamReset s) got queued := by
  have hbufs : ∀ k, w.streamBufs.get? k = none → (w.onStreamReset s).streamBufs.get? k = none := by
    intro k hk
    exact get?_erase_eq_none hk
  have hunaccepted : (w.onStreamReset s).connected = false → w.connected = false ∧
      ∀ k, k ≠ f.connectStream → (w.onStreamReset s).streamBufs.get? k = none := by
    intro h
    exact ⟨h, fun k hk => hbufs k ((ht.unaccepted h).2.2 k hk)⟩
  have haccepted : (w.onStreamReset s).connected = true →
      (w.onStreamReset s).sessionStream = some f.connectStream ∧
        ∀ k, k ≠ f.sid → (w.onStreamReset s).streamBufs.get? k = none := by
    intro h
    exact ⟨(ht.accepted h).1, fun k hk => hbufs k ((ht.accepted h).2 k hk)⟩
  by_cases hs : f.sid = s
  · subst hs
    refine ⟨ht.skipped, fun h => ?_, haccepted, fun h => ht.kept (mem_of_mem_erase h),
      fun h => absurd mem_closed_close_true h, fun h => absurd mem_closed_close_true h⟩
    exact ⟨(ht.unaccepted h).1, fun hm => (ht.unaccepted h).2.1 (mem_of_mem_erase hm),
      (hunaccepted h).2⟩
  · exact ht.of_sameAt (sameAt_onStreamReset hs) hunaccepted haccepted

end Tracks

end Ghostframe.Feedback
