import Ghostframe.Feedback.Dispatch

/-!
# What the journal of the feedback dispatcher says

The projections that the properties of the dispatcher are stated with, one connection at
a time: the bytes read from a stream, queued, handed to the dispatcher and consumed by it,
and the messages dispatched.

* `readOn`, `queuedOn`, `queuedOf`, `chunksOf`, `consumedOf`, `messagesOf`: each is a
  concatenation over the events of the journal;
* `Guarded`: a message other than HELLO comes from the connection that is live just
  before it.
-/

namespace Ghostframe.Feedback

open Ev List

/-- The connection an event is about. -/
def Ev.conn : Ev → Conn
  | .opened c => c
  | .read c _ _ _ => c
  | .queued c _ _ => c
  | .chunk c _ => c
  | .took c => c
  | .message c _ _ => c
  | .skipped c _ => c
  | .dropped c _ => c
  | .ended c => c

/-! ### Projections of one event -/

variable (c : Conn)

def Ev.readOn (sid : StreamId) : Ev → Bytes
  | .read c' sid' _ bytes => if c' = c ∧ sid' = sid then bytes else []
  | _ => []

def Ev.queuedOn (sid : StreamId) : Ev → Bytes
  | .queued c' sid' bytes => if c' = c ∧ sid' = sid then bytes else []
  | _ => []

def Ev.queuedOf : Ev → Bytes
  | .queued c' _ bytes => if c' = c then bytes else []
  | _ => []

def Ev.chunkOf : Ev → Bytes
  | .chunk c' bytes => if c' = c then bytes else []
  | _ => []

def Ev.consumedOf : Ev → Bytes
  | .message c' raw _ => if c' = c then raw else []
  | .skipped c' raw => if c' = c then raw else []
  | .dropped c' bytes => if c' = c then bytes else []
  | _ => []

def Ev.messageOf : Ev → List FeedbackMsg
  | .message c' _ msg => if c' = c then [msg] else []
  | _ => []

/-! ### Projections of the journal -/

/-- The bytes read from a stream. -/
def readOn (c : Conn) (sid : StreamId) (journal : List Ev) : Bytes :=
  journal.flatMap (Ev.readOn c sid)

/-- The bytes of a stream that were put in the feedback queue. -/
def queuedOn (c : Conn) (sid : StreamId) (journal : List Ev) : Bytes :=
  journal.flatMap (Ev.queuedOn c sid)

/-- The bytes a connection put in its feedback queue. -/
def queuedOf (c : Conn) (journal : List Ev) : Bytes := journal.flatMap (Ev.queuedOf c)

/-- The bytes of a connection handed to the dispatcher. -/
def chunksOf (journal : List Ev) : Bytes := journal.flatMap (Ev.chunkOf c)

/-- The bytes of a connection that the dispatcher is done with: dispatched as a message,
stepped over or discarded. -/
def consumedOf (c : Conn) (journal : List Ev) : Bytes := journal.flatMap (Ev.consumedOf c)

/-- The messages dispatched for a connection. -/
def messagesOf (journal : List Ev) : List FeedbackMsg :=
  journal.flatMap (Ev.messageOf c)

section Append

variable (c : Conn) (sid : StreamId) (journal later : List Ev) (ev : Ev)

@[simp] theorem readOn_append :
    readOn c sid (journal ++ later) = readOn c sid journal ++ readOn c sid later :=
  flatMap_append

@[simp] theorem queuedOn_append :
    queuedOn c sid (journal ++ later) = queuedOn c sid journal ++ queuedOn c sid later :=
  flatMap_append

@[simp] theorem queuedOf_append :
    queuedOf c (journal ++ later) = queuedOf c journal ++ queuedOf c later :=
  flatMap_append

@[simp] theorem chunksOf_append :
    chunksOf c (journal ++ later) = chunksOf c journal ++ chunksOf c later :=
  flatMap_append

@[simp] theorem consumedOf_append :
    consumedOf c (journal ++ later) = consumedOf c journal ++ consumedOf c later :=
  flatMap_append

@[simp] theorem messagesOf_append :
    messagesOf c (journal ++ later) = messagesOf c journal ++ messagesOf c later :=
  flatMap_append

@[simp] theorem readOn_singleton : readOn c sid [ev] = ev.readOn c sid := append_nil _

@[simp] theorem queuedOn_singleton : queuedOn c sid [ev] = ev.queuedOn c sid := append_nil _

@[simp] theorem queuedOf_singleton : queuedOf c [ev] = ev.queuedOf c := append_nil _

@[simp] theorem chunksOf_singleton : chunksOf c [ev] = ev.chunkOf c := append_nil _

@[simp] theorem consumedOf_singleton : consumedOf c [ev] = ev.consumedOf c := append_nil _

@[simp] theorem messagesOf_singleton : messagesOf c [ev] = ev.messageOf c := append_nil _

end Append

theorem mem_messagesOf {c : Conn} {journal : List Ev} {msg : FeedbackMsg}
    (h : msg ∈ messagesOf c journal) : ∃ raw, message c raw msg ∈ journal := by
  obtain ⟨ev, hev, hmsg⟩ := mem_flatMap.1 h
  cases ev with
  | message c' raw m =>
    rw [messageOf] at hmsg
    split_ifs at hmsg with hc
    · rw [mem_singleton] at hmsg
      exact ⟨raw, by rw [hmsg, ← hc]; exact hev⟩
    · simp at hmsg
  | _ => simp [messageOf] at hmsg

/-! ### Histories without a connection -/

section Absent

variable {c : Conn} {journal : List Ev}

theorem flatMap_eq_nil_of_absent {α : Type} {f : Ev → List α} (hf : ∀ ev, ev.conn ≠ c → f ev = [])
    (h : ∀ ev ∈ journal, ev.conn ≠ c) : journal.flatMap f = [] :=
  flatMap_eq_nil_iff.2 fun ev hev => hf ev (h ev hev)

variable {ev : Ev}

theorem Ev.readOn_of_ne (sid : StreamId) (h : ev.conn ≠ c) : ev.readOn c sid = [] := by
  cases ev <;> simp_all [readOn, conn]

theorem Ev.queuedOn_of_ne (sid : StreamId) (h : ev.conn ≠ c) :
    ev.queuedOn c sid = [] := by
  cases ev <;> simp_all [queuedOn, conn]

theorem Ev.queuedOf_of_ne (h : ev.conn ≠ c) : ev.queuedOf c = [] := by
  cases ev <;> simp_all [queuedOf, conn]

theorem Ev.chunkOf_of_ne (h : ev.conn ≠ c) : ev.chunkOf c = [] := by
  cases ev <;> simp_all [chunkOf, conn]

theorem Ev.consumedOf_of_ne (h : ev.conn ≠ c) : ev.consumedOf c = [] := by
  cases ev <;> simp_all [consumedOf, conn]

theorem Ev.messageOf_of_ne (h : ev.conn ≠ c) : ev.messageOf c = [] := by
  cases ev <;> simp_all [messageOf, conn]

theorem nothing_of_absent (h : ∀ ev ∈ journal, ev.conn ≠ c) :
    chunksOf c journal = [] ∧ consumedOf c journal = [] ∧ queuedOf c journal = [] ∧
      ∀ sid, readOn c sid journal = [] ∧ queuedOn c sid journal = [] :=
  ⟨flatMap_eq_nil_of_absent (fun _ => chunkOf_of_ne) h,
    flatMap_eq_nil_of_absent (fun _ => consumedOf_of_ne) h,
    flatMap_eq_nil_of_absent (fun _ => queuedOf_of_ne) h,
    fun sid => ⟨flatMap_eq_nil_of_absent (fun _ => readOn_of_ne sid) h,
      flatMap_eq_nil_of_absent (fun _ => queuedOn_of_ne sid) h⟩⟩

end Absent

/-! ### Who is live -/

theorem liveSession_append_singleton (journal : List Ev) (ev : Ev) :
    liveSession (journal ++ [ev]) = liveStep (liveSession journal) ev := by
  rw [liveSession, foldl_append]
  rfl

/-- Every dispatched message other than HELLO comes from the connection that was the live
session just before. -/
def Guarded (journal : List Ev) : Prop :=
  ∀ pre post c raw msg, journal = pre ++ .message c raw msg :: post → msg.isHello = false →
    liveSession pre = some c

theorem guarded_nil : Guarded [] := by
  intro pre post c raw msg h
  simp at h

theorem Guarded.snoc {journal : List Ev} {ev : Ev} (h : Guarded journal)
    (hev : ∀ c raw msg, ev = .message c raw msg → msg.isHello = false →
      liveSession journal = some c) : Guarded (journal ++ [ev]) := by
  intro pre post c raw msg heq hmsg
  rcases eq_nil_or_concat post with rfl | ⟨post, last, rfl⟩
  · -- the new event is the message
    obtain ⟨rfl, hlast⟩ := append_inj' heq rfl
    exact hev c raw msg (singleton_inj.1 hlast) hmsg
  · rw [concat_eq_append, ← cons_append, ← append_assoc] at heq
    obtain ⟨rfl, -⟩ := append_inj' heq rfl
    exact h pre post c raw msg rfl hmsg

/-! ### What comes from the streams -/

/-- Is the event a read or a piece for the feedback queue? -/
def Ev.isInput : Ev → Bool
  | .read _ _ _ _ => true
  | .queued _ _ _ => true
  | _ => false

section Input

variable {ev : Ev} (h : ev.isInput = false) (c : Conn) (sid : StreamId)
include h

theorem Ev.readOn_of_not_input : ev.readOn c sid = [] := by
  cases ev <;> simp_all [isInput, readOn]

theorem Ev.queuedOn_of_not_input : ev.queuedOn c sid = [] := by
  cases ev <;> simp_all [isInput, queuedOn]

theorem Ev.queuedOf_of_not_input : ev.queuedOf c = [] := by
  cases ev <;> simp_all [isInput, queuedOf]

end Input

/-- The events of one readable stream: the read, unless the stream has ended, and what it
adds to the feedback queue. -/
def inputs (c : Conn) (sid : StreamId) (shut accepted : Bool) (bytes : Bytes)
    (more : List Bytes) : List Ev :=
  (if shut then [] else [.read c sid accepted bytes]) ++ more.map (.queued c sid)

section Inputs

variable {c : Conn} {sid : StreamId} {shut accepted : Bool} {bytes : Bytes} {more : List Bytes}

theorem mem_inputs {ev : Ev} (h : ev ∈ inputs c sid shut accepted bytes more) :
    ev = .read c sid accepted bytes ∧ shut = false ∨ ∃ d ∈ more, ev = .queued c sid d := by
  rw [inputs, mem_append, mem_map] at h
  rcases h with h | ⟨d, hd, rfl⟩
  · cases shut with
    | true => simp at h
    | false => exact .inl ⟨by simpa using h, rfl⟩
  · exact .inr ⟨d, hd, rfl⟩

theorem conn_of_mem_inputs {ev : Ev} (h : ev ∈ inputs c sid shut accepted bytes more) :
    ev.conn = c := by
  rcases mem_inputs h with ⟨rfl, -⟩ | ⟨d, -, rfl⟩
  · rfl
  · rfl

theorem isInput_of_mem_inputs {ev : Ev} (h : ev ∈ inputs c sid shut accepted bytes more) :
    ev.isInput = true := by
  rcases mem_inputs h with ⟨rfl, -⟩ | ⟨d, -, rfl⟩
  · rfl
  · rfl

theorem flatMap_queued {f : Ev → Bytes} (hf : ∀ d, f (.queued c sid d) = d) :
    (more.map (.queued c sid)).flatMap f = more.flatten := by
  induction more with
  | nil => rfl
  | cons d more ih => rw [map_cons, flatMap_cons, hf, ih, flatten_cons]

theorem readOn_inputs :
    readOn c sid (inputs c sid shut accepted bytes more) = if shut then [] else bytes := by
  have hmore : readOn c sid (more.map (.queued c sid)) = [] := by
    simp [readOn, List.flatMap_map, Ev.readOn]
  rw [inputs, readOn_append, hmore, List.append_nil]
  cases shut with
  | true => rfl
  | false => simp [Ev.readOn]

theorem queuedOn_inputs :
    queuedOn c sid (inputs c sid shut accepted bytes more) = more.flatten := by
  have hmore : queuedOn c sid (more.map (.queued c sid)) = more.flatten :=
    flatMap_queued fun d => if_pos ⟨rfl, rfl⟩
  rw [inputs, queuedOn_append, hmore]
  cases shut with
  | true => rfl
  | false => simp [Ev.queuedOn]

theorem queuedOf_inputs : queuedOf c (inputs c sid shut accepted bytes more) = more.flatten := by
  have hmore : queuedOf c (more.map (.queued c sid)) = more.flatten :=
    flatMap_queued fun d => if_pos rfl
  rw [inputs, queuedOf_append, hmore]
  cases shut with
  | true => rfl
  | false => simp [Ev.queuedOf]

theorem readOn_inputs_of_ne {other : StreamId} (h : other ≠ sid) :
    readOn c other (inputs c sid shut accepted bytes more) = [] := by
  refine flatMap_eq_nil_iff.2 fun ev hev => ?_
  rcases mem_inputs hev with ⟨rfl, -⟩ | ⟨d, -, rfl⟩
  · exact if_neg fun heq => h heq.2.symm
  · rfl

theorem queuedOn_inputs_of_ne {other : StreamId} (h : other ≠ sid) :
    queuedOn c other (inputs c sid shut accepted bytes more) = [] := by
  refine flatMap_eq_nil_iff.2 fun ev hev => ?_
  rcases mem_inputs hev with ⟨rfl, -⟩ | ⟨d, -, rfl⟩
  · rfl
  · exact if_neg fun heq => h heq.2.symm

end Inputs

/-- Reads and queueing do not change who is live. -/
theorem liveSession_append_inputs {journal later : List Ev} (h : ∀ ev ∈ later, ev.isInput = true) :
    liveSession (journal ++ later) = liveSession journal := by
  induction later using reverseRecOn with
  | nil => rw [append_nil]
  | append_singleton later ev ih =>
    have hev : ev.isInput = true := h ev (by simp)
    rw [← append_assoc, liveSession_append_singleton,
      ih fun e he => h e (mem_append_left _ he)]
    cases ev <;> first | rfl | simp [isInput] at hev

theorem Guarded.append_inputs {journal later : List Ev} (hg : Guarded journal)
    (h : ∀ ev ∈ later, ev.isInput = true) : Guarded (journal ++ later) := by
  induction later using reverseRecOn with
  | nil => rwa [append_nil]
  | append_singleton later ev ih =>
    have hev : ev.isInput = true := h ev (by simp)
    rw [← append_assoc]
    refine (ih fun e he => h e (mem_append_left _ he)).snoc ?_
    rintro c raw msg rfl
    simp [isInput] at hev

end Ghostframe.Feedback
