import Ghostframe.Lib.Run

/-!
# The certificate schedule

Clients pin the hashes of two certificates: the one served and the one after it. The schedule
rotates only when somebody asks it for something.

* `advance`: one step, or a new start when the clock stepped back or a whole period was slept over;
* `pins_usable`: what is served is valid, and was pinned by a client that read the hashes at most
  a period ago.
-/

namespace Ghostframe.Transport

/-- So many days, in nanoseconds. -/
def days (n : ℤ) : ℤ := n * 86400000000000

/-- `CERT_VALIDITY`. -/
def certValidity : ℤ := days 13

/-- `CERT_BACKDATE`. -/
def certBackdate : ℤ := days 1

/-- `CERT_SERVE_PERIOD`. -/
def certServePeriod : ℤ := days 7

/-- A certificate and when it starts being served, with the dates that follow from that. -/
structure CertSlot where
  hex : String
  serveFrom : ℤ
  notBefore : ℤ
  notAfter : ℤ
  notBefore_eq : notBefore = serveFrom - certBackdate
  notAfter_eq : notAfter = notBefore + certValidity

/-- `make_slot`, once a certificate with this hash is generated. -/
def makeSlot (hex : String) (serveFrom : ℤ) : CertSlot where
  hex
  serveFrom
  notBefore := serveFrom - certBackdate
  notAfter := serveFrom - certBackdate + certValidity
  notBefore_eq := rfl
  notAfter_eq := rfl

/-- The served slot and the one that follows it a period later. -/
structure CertSchedule where
  current : CertSlot
  next : CertSlot
  rotated : ℕ
  follows : next.serveFrom = current.serveFrom + certServePeriod

/-- The clock at a call, and the hashes of what it may generate: none on a failure. -/
structure CertCall where
  now : ℤ
  first : Option String
  second : Option String

/-- No generation fails. -/
def CertCall.Generates (c : CertCall) : Prop := c.first ≠ none ∧ c.second ≠ none

namespace CertSchedule

/-- The two slots of a schedule that starts now. -/
def startOver (c : CertCall) (rotated : ℕ) : Option CertSchedule :=
  c.first.bind fun first => c.second.map fun second =>
    ⟨makeSlot first c.now, makeSlot second (c.now + certServePeriod), rotated, rfl⟩

def new (c : CertCall) : Option CertSchedule := startOver c 0

/-- `advance_locked`; a failed generation keeps what is served. -/
def advance (st : CertSchedule) (c : CertCall) : CertSchedule :=
  let steppedBack := c.now < st.current.notBefore
  if c.now < st.next.serveFrom ∧ ¬steppedBack then st
  else
    (if steppedBack ∨ st.next.serveFrom + certServePeriod ≤ c.now then
      startOver c (st.rotated + 1)
    else
      c.first.map fun hex =>
        ⟨st.next, makeSlot hex (st.next.serveFrom + certServePeriod), st.rotated + 1, rfl⟩).getD st

/-- `hashes_hex`. -/
def hashesHex (st : CertSchedule) : List String := [st.current.hex, st.next.hex]

variable {st pins : CertSchedule} {c : CertCall} {last limit : ℤ}

/-- The schedule has been advanced to `now`. -/
structure At (now : ℤ) (st : CertSchedule) : Prop where
  begun : st.current.notBefore ≤ now
  due : now < st.next.serveFrom

theorem startOver_at (hgen : c.Generates) (rotated : ℕ) :
    ∃ st, startOver c rotated = some st ∧ At c.now st := by
  obtain ⟨first, hfirst⟩ := Option.ne_none_iff_exists'.1 hgen.1
  obtain ⟨second, hsecond⟩ := Option.ne_none_iff_exists'.1 hgen.2
  refine ⟨_, by rw [startOver, hfirst, hsecond]; rfl, ?_, ?_⟩
  · exact Int.sub_le_self _ (by decide)
  · exact Int.lt_add_of_pos_right _ (by decide)

theorem At.advance_early (h : At c.now st) : st.advance c = st :=
  if_pos ⟨h.due, h.begun.not_gt⟩

/-- The second slot is served in its period. -/
theorem advance_due (hgen : c.Generates) (hdue : st.next.serveFrom ≤ c.now)
    (hperiod : c.now < st.next.serveFrom + certServePeriod) :
    (st.advance c).current = st.next ∧ At c.now (st.advance c) := by
  obtain ⟨first, hfirst⟩ := Option.ne_none_iff_exists'.1 hgen.1
  have hnext : st.next.notBefore ≤ c.now := by
    rw [st.next.notBefore_eq]
    exact (Int.sub_le_self _ (by decide)).trans hdue
  have hback : ¬c.now < st.current.notBefore := by
    have hfollows := st.follows
    have hbefore := st.current.notBefore_eq
    simp only [certBackdate, certServePeriod, days] at *
    omega
  simp only [advance, hdue.not_gt, hback, hperiod.not_ge, false_and, or_self, if_false, hfirst]
  exact ⟨rfl, hnext, hperiod⟩

theorem advance_at (st : CertSchedule) (hgen : c.Generates) : At c.now (st.advance c) := by
  by_cases hback : c.now < st.current.notBefore ∨ st.next.serveFrom + certServePeriod ≤ c.now
  · obtain ⟨st', hst', hat⟩ := startOver_at hgen (st.rotated + 1)
    have hpos : (0 : ℤ) < certServePeriod := by decide
    have hnot : ¬(c.now < st.next.serveFrom ∧ ¬c.now < st.current.notBefore) := by omega
    simpa only [advance, hnot, hback, if_false, if_true, hst']
  · obtain ⟨hbegun, hperiod⟩ := not_or.1 hback
    rcases lt_or_ge c.now st.next.serveFrom with hearly | hdue
    · have hat : At c.now st := ⟨not_lt.1 hbegun, hearly⟩
      rwa [hat.advance_early]
    · exact (advance_due hgen hdue (not_le.1 hperiod)).2

/-- One of two pinned slots is served, and the second is not over before `limit`. -/
structure Pinned (pins : CertSchedule) (limit last : ℤ) (st : CertSchedule) : Prop
    extends At last st where
  pinned : (st.current = pins.current ∧ st.next = pins.next) ∨
    (st.current = pins.next ∧ limit < st.next.serveFrom)

theorem Pinned.advance (h : Pinned pins limit last st)
    (hlimit : limit < pins.next.serveFrom + certServePeriod) (hgen : c.Generates)
    (hlast : last ≤ c.now) (hc : c.now ≤ limit) : Pinned pins limit c.now (st.advance c) := by
  rcases lt_or_ge c.now st.next.serveFrom with hearly | hdue
  · have hat : At c.now st := ⟨h.begun.trans hlast, hearly⟩
    rw [hat.advance_early]
    exact ⟨hat, h.pinned⟩
  · rcases h.pinned with ⟨_, hnext⟩ | ⟨_, hlate⟩
    · obtain ⟨hcur, hat⟩ := advance_due hgen hdue (by rw [hnext]; omega)
      refine ⟨hat, .inr ⟨hcur.trans hnext, ?_⟩⟩
      rwa [follows, hcur, hnext]
    · omega

theorem Pinned.run (hlimit : limit < pins.next.serveFrom + certServePeriod)
    (calls : List CertCall) : ∀ {st : CertSchedule} {last : ℤ}, Pinned pins limit last st →
      (∀ c ∈ calls, c.Generates ∧ c.now ≤ limit) → (last :: calls.map (·.now)).IsChain (· ≤ ·) →
      (Ghostframe.run CertSchedule.advance st calls).current.hex ∈ pins.hashesHex := by
  induction calls with
  | nil =>
    intro st last h _ _
    rcases h.pinned with ⟨hcur, -⟩ | ⟨hcur, -⟩ <;> simp [run_nil, hashesHex, hcur]
  | cons c calls ih =>
    intro st last h hcalls hchain
    rw [List.forall_mem_cons] at hcalls
    rw [List.map_cons, List.isChain_cons_cons] at hchain
    exact ih (h.advance hlimit hcalls.1.1 hchain.1 hcalls.1.2) hcalls.2 hchain.2

/-- **What is served at a call is valid then, whatever the clock and the generation did before; and
a client that read the hashes holds that of every certificate served within a period, unless the
clock goes back.** -/
theorem pins_usable {start : CertCall} (hgen : start.Generates) :
    ∃ st, new start = some st ∧ ∀ (calls : List CertCall) (c : CertCall), c.Generates →
      let served := (run advance st calls).advance c
      (served.current.notBefore ≤ c.now ∧ c.now ≤ served.current.notAfter) ∧
      ∀ later : List CertCall, (∀ c' ∈ later, c'.Generates ∧ c'.now ≤ c.now + certServePeriod) →
        (c.now :: later.map (·.now)).IsChain (· ≤ ·) →
        (run advance served later).current.hex ∈ served.hashesHex := by
  obtain ⟨st, hst, -⟩ := startOver_at hgen 0
  refine ⟨st, hst, ?_⟩
  intro calls c hc served
  have hat : At c.now served := advance_at _ hc
  refine ⟨⟨hat.begun, ?_⟩, fun later hlater hchain => ?_⟩
  · have hdue := hat.due
    rw [follows] at hdue
    rw [CertSlot.notAfter_eq, CertSlot.notBefore_eq]
    simp only [certServePeriod, certBackdate, certValidity, days] at *
    omega
  · exact Pinned.run (Int.add_lt_add_right hat.due _) later ⟨hat, .inl ⟨rfl, rfl⟩⟩ hlater hchain

/-- The hashes are read at the start, and nobody calls until a period later. -/
theorem pins_usable_lazily :
    let start : CertCall := ⟨0, some "a", some "b"⟩
    let late : CertCall := ⟨certServePeriod, some "c", some "d"⟩
    ∃ st, new start = some st ∧
      (run advance (st.advance start) [late]).current.hex ∈ (st.advance start).hashesHex := by
  intro start late
  have hstart : start.Generates := ⟨by decide, by decide⟩
  obtain ⟨st, hst, h⟩ := pins_usable hstart
  refine ⟨st, hst, (h [] start hstart).2 [late] ?_ (by decide)⟩
  intro c hc
  rw [List.mem_singleton.1 hc]
  exact ⟨⟨by decide, by decide⟩, by decide⟩

end CertSchedule

end Ghostframe.Transport
