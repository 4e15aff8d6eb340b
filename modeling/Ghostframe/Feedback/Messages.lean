import Ghostframe.Client.H264Gate

/-!
# The messages of the feedback stream

Every message starts with its type byte; all but INPUT have a fixed size, and the size
of an INPUT message follows from its second byte.

* `nextMessage`: what the dispatcher finds at the front of its buffer: a message, a
  part of one, or bytes it cannot step over;
* `IsWire raw m`: `raw` is a whole well-formed message that decodes to `m`;
* `nextMessage_append_of_isWire`, `nextMessage_of_part`: a whole message is found
  whatever follows it, a part of one is waited for.
-/

namespace Ghostframe.Feedback

open List

/-! ### Types and sizes -/

def feedbackMsgType : UInt8 := 0x01
def helloMsgType : UInt8 := 0x03
def decodeErrorMsgType : UInt8 := 0x04
def inputMsgType : UInt8 := 0x05
def displayInfoMsgType : UInt8 := 0x07
def displayModeMsgType : UInt8 := 0x08
def resetRequestMsgType : UInt8 := 0x09

def feedbackSize : ℕ := 18
def helloSize : ℕ := 2
def decodeErrorSize : ℕ := 5
def resetRequestSize : ℕ := 6
def displayInfoSize : ℕ := 11
def displayModeSize : ℕ := 5

/-- The byte at an offset. -/
def byteAt (data : Bytes) (i : ℕ) : UInt8 := data.getD i 0

/-- The big-endian 64-bit number at an offset. -/
def be64At (data : Bytes) (i : ℕ) : UInt64 :=
  .ofNat ((be32At data i).toNat * 4294967296 + (be32At data (i + 4)).toNat)

/-- The big-endian signed 16-bit number at an offset. -/
def beI16At (data : Bytes) (i : ℕ) : Int16 := (be16At data i).toInt16

/-! ### Decoders -/

/-- What all fixed-size decoders check before they read their fields. -/
def decodeFixed {α : Type} (size : ℕ) (msgType : UInt8) (fields : Bytes → Option α)
    (data : Bytes) : Option α :=
  if data.length < size then none
  else if byteAt data 0 ≠ msgType then none
  else fields data

/-- `ReceiverFeedback`. -/
structure ReceiverFeedback where
  timestampNs : UInt64
  datagramsReceived : UInt32
  datagramsRecoveredFec : UInt32
  suspensionDetected : Bool
  deriving DecidableEq

def ReceiverFeedback.decode : Bytes → Option ReceiverFeedback :=
  decodeFixed feedbackSize feedbackMsgType fun data => some {
    timestampNs := be64At data 1
    datagramsReceived := be32At data 9
    datagramsRecoveredFec := be32At data 13
    suspensionDetected := byteAt data 17 &&& 0x01 ≠ 0 }

/-- `ClientCapabilities`. -/
structure ClientCapabilities where
  indicesRawEnabled : Bool := false
  supportsH264 : Bool := false
  h264AckedRef : Bool := false
  deriving DecidableEq

/-- `HelloMsg::decode`. -/
def HelloMsg.decode : Bytes → Option ClientCapabilities :=
  decodeFixed helloSize helloMsgType fun data => some {
    indicesRawEnabled := byteAt data 1 &&& 0x01 ≠ 0
    supportsH264 := byteAt data 1 &&& 0x02 ≠ 0
    h264AckedRef := byteAt data 1 &&& 0x04 ≠ 0 }

/-- `DecodeErrorMsg`. -/
structure DecodeErrorMsg where
  codec : UInt8
  tileX : UInt8
  tileY : UInt8
  errorCode : UInt8
  deriving DecidableEq

def DecodeErrorMsg.decode : Bytes → Option DecodeErrorMsg :=
  decodeFixed decodeErrorSize decodeErrorMsgType fun data => some {
    codec := byteAt data 1
    tileX := byteAt data 2
    tileY := byteAt data 3
    errorCode := byteAt data 4 }

/-- `ResetReason::from_u8`. -/
def resetReasonOfU8 (b : UInt8) : Option Client.ResetReason :=
  if b = 1 then some .decoderFailure
  else if b = 2 then some .resolution
  else if b = 3 then some .noDecoder
  else if b = 4 then some .gateReset
  else none

/-- `ResetRequest`. -/
structure ResetRequest where
  reason : Client.ResetReason
  frameSeq : UInt32
  deriving DecidableEq

def ResetRequest.decode : Bytes → Option ResetRequest :=
  decodeFixed resetRequestSize resetRequestMsgType fun data =>
    (resetReasonOfU8 (byteAt data 1)).map fun reason => ⟨reason, le32At data 2⟩

/-- `DisplayInfoMsg`. -/
structure DisplayInfoMsg where
  maxWidth : UInt16
  maxHeight : UInt16
  scaleMilli : UInt16
  mmWidth : UInt16
  mmHeight : UInt16
  deriving DecidableEq

def DisplayInfoMsg.decode : Bytes → Option DisplayInfoMsg :=
  decodeFixed displayInfoSize displayInfoMsgType fun data => some {
    maxWidth := be16At data 1
    maxHeight := be16At data 3
    scaleMilli := be16At data 5
    mmWidth := be16At data 7
    mmHeight := be16At data 9 }

/-- `DisplayModeMsg`. -/
structure DisplayModeMsg where
  width : UInt16
  height : UInt16
  deriving DecidableEq

def DisplayModeMsg.decode : Bytes → Option DisplayModeMsg :=
  decodeFixed displayModeSize displayModeMsgType fun data => some {
    width := be16At data 1
    height := be16At data 3 }

/-- `InputMsg`. -/
inductive InputMsg
  | pointerMove (x y : Int16)
  | pointerButton (x y : Int16) (button : UInt8) (down : Bool)
  | wheel (dx dy : Int16)
  | keyDown (keysym : UInt32)
  | keyUp (keysym : UInt32)
  deriving DecidableEq

def subPointerMove : UInt8 := 0x01
def subPointerButton : UInt8 := 0x02
def subWheel : UInt8 := 0x03
def subKeyDown : UInt8 := 0x04
def subKeyUp : UInt8 := 0x05

/-- `required_len`. -/
def requiredLen (subKind : UInt8) : Option ℕ :=
  if subKind = subPointerMove ∨ subKind = subWheel ∨ subKind = subKeyDown ∨ subKind = subKeyUp then
    some 6
  else if subKind = subPointerButton then some 8
  else none

/-- `decode_input_msg`. -/
def decodeInputMsg (data : Bytes) : Option (InputMsg × ℕ) :=
  if data.length < 2 ∨ byteAt data 0 ≠ inputMsgType then none
  else if byteAt data 1 = subPointerMove then
    if data.length < 6 then none else some (.pointerMove (beI16At data 2) (beI16At data 4), 6)
  else if byteAt data 1 = subPointerButton then
    if data.length < 8 then none
    else some (.pointerButton (beI16At data 2) (beI16At data 4) (byteAt data 6)
      (byteAt data 7 ≠ 0), 8)
  else if byteAt data 1 = subWheel then
    if data.length < 6 then none else some (.wheel (beI16At data 2) (beI16At data 4), 6)
  else if byteAt data 1 = subKeyDown then
    if data.length < 6 then none else some (.keyDown (be32At data 2), 6)
  else if byteAt data 1 = subKeyUp then
    if data.length < 6 then none else some (.keyUp (be32At data 2), 6)
  else none

/-- A message the dispatcher hands to its handler. -/
inductive FeedbackMsg
  | feedback (fb : ReceiverFeedback)
  | hello (caps : ClientCapabilities)
  | decodeError (msg : DecodeErrorMsg)
  | resetRequest (msg : ResetRequest)
  | displayInfo (msg : DisplayInfoMsg)
  | displayMode (msg : DisplayModeMsg)
  | input (msg : InputMsg)
  deriving DecidableEq

/-- Is the message a HELLO? -/
def FeedbackMsg.isHello : FeedbackMsg → Bool
  | .hello _ => true
  | _ => false

/-! ### The front of the dispatcher's buffer -/

/-- What the front of the buffer is: a part of a message, bytes that cannot be stepped
over, or `size` bytes that hold a message (`none` if its decoder refuses it). -/
inductive Front
  | wait
  | discard
  | take (msg : Option FeedbackMsg) (size : ℕ)
  deriving DecidableEq

/-- The arm of a message of fixed size. -/
def fixedFront (size : ℕ) (msg : Option FeedbackMsg) (buf : Bytes) : Front :=
  if buf.length < size then .wait else .take msg size

/-- The arm of INPUT. -/
def inputFront (buf : Bytes) : Front :=
  if buf.length < 2 then .wait
  else
    match requiredLen (byteAt buf 1) with
    | none => .discard
    | some required =>
      if buf.length < required then .wait
      else
        match decodeInputMsg buf with
        | some (msg, consumed) => .take (some (.input msg)) consumed
        | none => .discard

/-- The match of `dispatch_feedback_bytes` on the type byte. -/
def nextMessage (buf : Bytes) : Front :=
  if byteAt buf 0 = feedbackMsgType then
    fixedFront feedbackSize ((ReceiverFeedback.decode buf).map .feedback) buf
  else if byteAt buf 0 = helloMsgType then
    fixedFront helloSize ((HelloMsg.decode buf).map .hello) buf
  else if byteAt buf 0 = decodeErrorMsgType then
    fixedFront decodeErrorSize ((DecodeErrorMsg.decode buf).map .decodeError) buf
  else if byteAt buf 0 = resetRequestMsgType then
    fixedFront resetRequestSize ((ResetRequest.decode buf).map .resetRequest) buf
  else if byteAt buf 0 = displayInfoMsgType then
    fixedFront displayInfoSize ((DisplayInfoMsg.decode buf).map .displayInfo) buf
  else if byteAt buf 0 = displayModeMsgType then
    fixedFront displayModeSize ((DisplayModeMsg.decode buf).map .displayMode) buf
  else if byteAt buf 0 = inputMsgType then inputFront buf
  else .discard

/-- `raw` is a whole, well-formed message that decodes to `m`. -/
def IsWire (raw : Bytes) : FeedbackMsg → Prop
  | .feedback fb => raw.length = feedbackSize ∧ ReceiverFeedback.decode raw = some fb
  | .hello caps => raw.length = helloSize ∧ HelloMsg.decode raw = some caps
  | .decodeError msg => raw.length = decodeErrorSize ∧ DecodeErrorMsg.decode raw = some msg
  | .resetRequest msg => raw.length = resetRequestSize ∧ ResetRequest.decode raw = some msg
  | .displayInfo msg => raw.length = displayInfoSize ∧ DisplayInfoMsg.decode raw = some msg
  | .displayMode msg => raw.length = displayModeSize ∧ DisplayModeMsg.decode raw = some msg
  | .input msg => decodeInputMsg raw = some (msg, raw.length)

instance (raw : Bytes) (m : FeedbackMsg) : Decidable (IsWire raw m) := by
  cases m <;> unfold IsWire <;> infer_instance

/-! ### A decoder looks at its own message only -/

section Reading

variable {raw : Bytes} (rest : Bytes) {i : ℕ}

theorem byteAt_append (h : i < raw.length) : byteAt (raw ++ rest) i = byteAt raw i :=
  getD_append raw rest 0 i h

theorem be16At_append_left (h : i + 1 < raw.length) :
    be16At (raw ++ rest) i = be16At raw i := by
  rw [be16At, be16At, getD_append _ _ _ _ (by omega), getD_append _ _ _ _ h]

theorem be32At_append_left (h : i + 3 < raw.length) :
    be32At (raw ++ rest) i = be32At raw i := by
  rw [be32At, be32At, getD_append _ _ _ _ (by omega), getD_append _ _ _ _ (by omega),
    getD_append _ _ _ _ (by omega), getD_append _ _ _ _ h]

theorem be64At_append_left (h : i + 7 < raw.length) :
    be64At (raw ++ rest) i = be64At raw i := by
  rw [be64At, be64At, be32At_append_left rest (by omega), be32At_append_left rest (by omega)]

theorem beI16At_append_left (h : i + 1 < raw.length) :
    beI16At (raw ++ rest) i = beI16At raw i := by
  rw [beI16At, beI16At, be16At_append_left rest h]

theorem le32At_append_left (h : i + 4 ≤ raw.length) :
    le32At (raw ++ rest) i = le32At raw i := by
  have hdrop : 4 ≤ (raw.drop i).length := by
    rw [length_drop]
    omega
  rw [le32At, le32At, drop_append_of_le_length (by omega),
    take_append_of_le_length hdrop]

end Reading

/-- The fields are read from the first `size` bytes. -/
def Local {α : Type} (size : ℕ) (fields : Bytes → α) : Prop :=
  ∀ raw rest, raw.length = size → fields (raw ++ rest) = fields raw

variable {size : ℕ} {α : Type} {n : ℕ} {buf : Bytes}

theorem local_decodeFixed {msgType : UInt8} {fields : Bytes → Option α} (hpos : 0 < size)
    (h : Local size fields) : Local size (decodeFixed size msgType fields) := by
  intro raw rest hlen
  have hlong : ¬ (raw ++ rest).length < size := by
    rw [length_append]
    omega
  have hwhole : ¬ raw.length < size := by omega
  unfold decodeFixed
  rw [byteAt_append rest (by omega), h raw rest hlen, if_neg hlong, if_neg hwhole]

theorem decodeFixed_eq_some {msgType : UInt8} {fields : Bytes → Option α} {data : Bytes} {v : α}
    (h : decodeFixed size msgType fields data = some v) : byteAt data 0 = msgType := by
  unfold decodeFixed at h
  split_ifs at h with hlen htype
  exact not_not.1 htype

theorem ReceiverFeedback.local_decode : Local feedbackSize ReceiverFeedback.decode := by
  refine local_decodeFixed (by decide) fun raw rest hlen => ?_
  rw [feedbackSize] at hlen
  rw [be64At_append_left rest (by omega), be32At_append_left rest (by omega),
    be32At_append_left rest (by omega), byteAt_append rest (by omega)]

theorem HelloMsg.local_decode : Local helloSize HelloMsg.decode := by
  refine local_decodeFixed (by decide) fun raw rest hlen => ?_
  rw [helloSize] at hlen
  rw [byteAt_append rest (by omega)]

theorem DecodeErrorMsg.local_decode : Local decodeErrorSize DecodeErrorMsg.decode := by
  refine local_decodeFixed (by decide) fun raw rest hlen => ?_
  rw [decodeErrorSize] at hlen
  rw [byteAt_append rest (by omega), byteAt_append rest (by omega),
    byteAt_append rest (by omega), byteAt_append rest (by omega)]

theorem ResetRequest.local_decode : Local resetRequestSize ResetRequest.decode := by
  refine local_decodeFixed (by decide) fun raw rest hlen => ?_
  rw [resetRequestSize] at hlen
  rw [byteAt_append rest (by omega), le32At_append_left rest (by omega)]

theorem DisplayInfoMsg.local_decode : Local displayInfoSize DisplayInfoMsg.decode := by
  refine local_decodeFixed (by decide) fun raw rest hlen => ?_
  rw [displayInfoSize] at hlen
  rw [be16At_append_left rest (by omega), be16At_append_left rest (by omega),
    be16At_append_left rest (by omega), be16At_append_left rest (by omega),
    be16At_append_left rest (by omega)]

theorem DisplayModeMsg.local_decode : Local displayModeSize DisplayModeMsg.decode := by
  refine local_decodeFixed (by decide) fun raw rest hlen => ?_
  rw [displayModeSize] at hlen
  rw [be16At_append_left rest (by omega), be16At_append_left rest (by omega)]

/-! ### INPUT -/

/-- The size the dispatcher waits for is the size the decoder consumes. -/
theorem decodeInputMsg_eq_some {data : Bytes} {msg : InputMsg}
    (h : decodeInputMsg data = some (msg, n)) :
    byteAt data 0 = inputMsgType ∧ requiredLen (byteAt data 1) = some n ∧ 2 ≤ n ∧
      n ≤ data.length := by
  unfold decodeInputMsg at h
  split_ifs at h with h0 h1 hl h2 hl h3 hl h4 hl h5 hl
  all_goals
    rw [not_or, not_not] at h0
    obtain ⟨-, rfl⟩ := Prod.mk.inj (Option.some.inj h)
  · exact ⟨h0.2, by rw [h1]; rfl, by omega, by omega⟩
  · exact ⟨h0.2, by rw [h2]; rfl, by omega, by omega⟩
  · exact ⟨h0.2, by rw [h3]; rfl, by omega, by omega⟩
  · exact ⟨h0.2, by rw [h4]; rfl, by omega, by omega⟩
  · exact ⟨h0.2, by rw [h5]; rfl, by omega, by omega⟩

theorem decodeInputMsg_append {raw : Bytes} {msg : InputMsg}
    (h : decodeInputMsg raw = some (msg, raw.length)) (rest : Bytes) :
    decodeInputMsg (raw ++ rest) = some (msg, raw.length) := by
  obtain ⟨-, hreq, hpos, -⟩ := decodeInputMsg_eq_some h
  have hsix : 6 ≤ raw.length := by
    unfold requiredLen at hreq
    split_ifs at hreq with h6 h8
    · exact (Option.some.inj hreq).le
    · have := Option.some.inj hreq
      omega
  have hlen : ∀ k ≤ raw.length, ¬ (raw ++ rest).length < k := by
    intro k hk
    rw [length_append]
    omega
  have hshort : ∀ k ≤ raw.length, ¬ raw.length < k := fun k hk => by omega
  -- the two branches on the length of the slice agree once the message is complete
  have heq : decodeInputMsg (raw ++ rest) = decodeInputMsg raw := by
    unfold decodeInputMsg
    rw [byteAt_append rest (by omega), byteAt_append rest (by omega),
      beI16At_append_left rest (by omega), beI16At_append_left rest (by omega),
      be32At_append_left rest (by omega)]
    simp only [hlen 2 hpos, hshort 2 hpos, hlen 6 hsix, hshort 6 hsix]
    by_cases hbutton : byteAt raw 1 = subPointerButton
    · have h8 : raw.length = 8 := by
        rw [hbutton] at hreq
        exact (Option.some.inj hreq).symm
      rw [byteAt_append rest (by omega), byteAt_append rest (by omega)]
      simp only [hlen 8 h8.ge, hshort 8 h8.ge]
    · simp only [if_neg hbutton]
  rw [heq, h]

/-! ### Whole and partial messages -/

/-- The type byte of a message. -/
def FeedbackMsg.msgType : FeedbackMsg → UInt8
  | .feedback _ => feedbackMsgType
  | .hello _ => helloMsgType
  | .decodeError _ => decodeErrorMsgType
  | .resetRequest _ => resetRequestMsgType
  | .displayInfo _ => displayInfoMsgType
  | .displayMode _ => displayModeMsgType
  | .input _ => inputMsgType

theorem msgType_eq_hello_iff (m : FeedbackMsg) : m.msgType = helloMsgType ↔ m.isHello = true := by
  cases m <;> simp [FeedbackMsg.msgType, FeedbackMsg.isHello] <;> decide

variable {raw : Bytes} {m : FeedbackMsg}

theorem IsWire.byteAt_zero (h : IsWire raw m) : byteAt raw 0 = m.msgType := by
  cases m with
  | input msg => exact (decodeInputMsg_eq_some h).1
  | _ => exact decodeFixed_eq_some h.2

theorem IsWire.length_pos (h : IsWire raw m) : 2 ≤ raw.length := by
  cases m with
  | input msg => exact (decodeInputMsg_eq_some h).2.2.1
  | _ => exact h.1 ▸ (by decide)

/-- The arm of the dispatcher for the messages of one type. -/
def FeedbackMsg.front (buf : Bytes) : FeedbackMsg → Front
  | .feedback _ => fixedFront feedbackSize ((ReceiverFeedback.decode buf).map .feedback) buf
  | .hello _ => fixedFront helloSize ((HelloMsg.decode buf).map .hello) buf
  | .decodeError _ => fixedFront decodeErrorSize ((DecodeErrorMsg.decode buf).map .decodeError) buf
  | .resetRequest _ => fixedFront resetRequestSize ((ResetRequest.decode buf).map .resetRequest) buf
  | .displayInfo _ => fixedFront displayInfoSize ((DisplayInfoMsg.decode buf).map .displayInfo) buf
  | .displayMode _ => fixedFront displayModeSize ((DisplayModeMsg.decode buf).map .displayMode) buf
  | .input _ => inputFront buf

theorem nextMessage_of_type (h : byteAt buf 0 = m.msgType) : nextMessage buf = m.front buf := by
  unfold nextMessage
  rw [h]
  cases m <;> rfl

theorem fixedFront_whole {decode : Bytes → Option α} {wrap : α → FeedbackMsg} {v : α}
    (hlocal : Local size decode) (hlen : raw.length = size) (hdec : decode raw = some v)
    (rest : Bytes) :
    fixedFront size ((decode (raw ++ rest)).map wrap) (raw ++ rest) =
      .take (some (wrap v)) raw.length := by
  rw [hlocal raw rest hlen, hdec, fixedFront, if_neg (by simp; omega), hlen]
  rfl

/-- A whole message is found whatever follows it. -/
theorem nextMessage_append_of_isWire (h : IsWire raw m) (rest : Bytes) :
    nextMessage (raw ++ rest) = .take (some m) raw.length := by
  have hpos := h.length_pos
  have htype : byteAt (raw ++ rest) 0 = m.msgType := by
    rw [byteAt_append rest (by omega), h.byteAt_zero]
  rw [nextMessage_of_type htype]
  cases m with
  | feedback fb => exact fixedFront_whole ReceiverFeedback.local_decode h.1 h.2 rest
  | hello caps => exact fixedFront_whole HelloMsg.local_decode h.1 h.2 rest
  | decodeError msg => exact fixedFront_whole DecodeErrorMsg.local_decode h.1 h.2 rest
  | resetRequest msg => exact fixedFront_whole ResetRequest.local_decode h.1 h.2 rest
  | displayInfo msg => exact fixedFront_whole DisplayInfoMsg.local_decode h.1 h.2 rest
  | displayMode msg => exact fixedFront_whole DisplayModeMsg.local_decode h.1 h.2 rest
  | input msg =>
    obtain ⟨-, hreq, -, -⟩ := decodeInputMsg_eq_some h
    show inputFront (raw ++ rest) = _
    unfold inputFront
    rw [if_neg (by simp; omega), byteAt_append rest (by omega), hreq]
    show (if (raw ++ rest).length < raw.length then _ else _) = _
    rw [if_neg (by simp), decodeInputMsg_append h rest]

variable {msg : Option FeedbackMsg}

/-- A part of a message is waited for. -/
theorem nextMessage_of_part {part : Bytes} (h : IsWire raw m) (hpre : part <+: raw)
    (hne : part ≠ []) (hlt : part.length < raw.length) : nextMessage part = .wait := by
  obtain ⟨rest, rfl⟩ := hpre
  have hpos : 0 < part.length := length_pos_iff.2 hne
  have htype : byteAt part 0 = m.msgType := by
    rw [← byteAt_append rest hpos, h.byteAt_zero]
  rw [nextMessage_of_type htype]
  cases m with
  | input msg =>
    obtain ⟨-, hreq, -, -⟩ := decodeInputMsg_eq_some h
    show inputFront part = .wait
    unfold inputFront
    by_cases htwo : part.length < 2
    · rw [if_pos htwo]
    · rw [byteAt_append rest (by omega)] at hreq
      rw [if_neg htwo, hreq]
      exact if_pos hlt
  | _ => exact if_pos (h.1 ▸ hlt)

/-- What is taken is there and is never nothing, and its type is the one the buffer starts with. -/
structure Taken (buf : Bytes) (msg : Option FeedbackMsg) (n : ℕ) : Prop where
  pos : 0 < n
  le : n ≤ buf.length
  msgType : ∀ m, msg = some m → byteAt buf 0 = m.msgType

theorem fixedFront_taken {found : Option α} {wrap : α → FeedbackMsg} (hpos : 0 < size)
    (h : fixedFront size (found.map wrap) buf = .take msg n)
    (htype : ∀ v, byteAt buf 0 = (wrap v).msgType) : Taken buf msg n := by
  unfold fixedFront at h
  split_ifs at h with hlen
  obtain ⟨rfl, rfl⟩ := Front.take.inj h
  refine ⟨hpos, Nat.le_of_not_lt hlen, fun m hm => ?_⟩
  obtain ⟨v, -, rfl⟩ := Option.map_eq_some_iff.1 hm
  exact htype v

theorem inputFront_taken (htype : byteAt buf 0 = inputMsgType)
    (h : inputFront buf = .take msg n) : Taken buf msg n := by
  unfold inputFront at h
  split_ifs at h
  cases hreq : requiredLen (byteAt buf 1) with
  | none => simp [hreq] at h
  | some required =>
    simp only [hreq] at h
    split_ifs at h
    cases hdec : decodeInputMsg buf with
    | none => simp [hdec] at h
    | some found =>
      obtain ⟨-, -, hpos, hle⟩ := decodeInputMsg_eq_some hdec
      simp only [hdec, Front.take.injEq] at h
      obtain ⟨rfl, rfl⟩ := h
      refine ⟨by omega, hle, fun m hm => ?_⟩
      obtain rfl := Option.some.inj hm
      exact htype

theorem nextMessage_taken (h : nextMessage buf = .take msg n) : Taken buf msg n := by
  unfold nextMessage at h
  split_ifs at h with h1 h2 h3 h4 h5 h6 h7
  · exact fixedFront_taken (by decide) h fun _ => h1
  · exact fixedFront_taken (by decide) h fun _ => h2
  · exact fixedFront_taken (by decide) h fun _ => h3
  · exact fixedFront_taken (by decide) h fun _ => h4
  · exact fixedFront_taken (by decide) h fun _ => h5
  · exact fixedFront_taken (by decide) h fun _ => h6
  · exact inputFront_taken h7 h

end Ghostframe.Feedback
