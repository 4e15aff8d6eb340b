import Ghostframe.Client.H264Gate
import Ghostframe.Lib.Run
import Ghostframe.Lib.Serial
import Ghostframe.Protocol.FrameAck

/-!
# What a frame acknowledgement says

The window is two 64-bit masks that slide with the newest frame. `AckLog` runs it
beside a log of every `record` call, with frames numbered from the integers: a call's
frame is the one closest to the newest so far that its 31 bits can mean.

* `Shows`: a mask, read as a set of numbers;
* `AckLog.Reports`: what the masks say about the log;
* `frame_ack_fidelity`: what the server reads in an acknowledgement.
-/

namespace Ghostframe.Client

open Protocol Serial FrameAckWindow List

def frameAckMinIntervalUs : ℕ := 4000
def frameAckFallbackUs : ℕ := 100000

namespace FrameAckWindow

variable (w : FrameAckWindow)

/-- `take`. -/
def take (nowUs : ℕ) : FrameAckWindow × Option FrameAck :=
  match w.newest with
  | none => (w, none)
  | some newestSeq =>
    ({ w with dirtySinceUs := none, lastSentUs := some nowUs },
      some ⟨newestSeq, w.decoded, w.refused⟩)

/-- `take_due`. -/
def takeDue (nowUs : ℕ) : FrameAckWindow × Option FrameAck :=
  if w.dirtySinceUs.isNone then (w, none)
  else if w.lastSentUs.any fun t => decide (nowUs - t < frameAckMinIntervalUs) then (w, none)
  else w.take nowUs

/-- `fallback_at`. -/
def fallbackAt : Option ℕ :=
  w.dirtySinceUs.map fun t => t + frameAckFallbackUs

/-- `take_overdue`. -/
def takeOverdue (nowUs : ℕ) : FrameAckWindow × Option FrameAck :=
  if w.fallbackAt.all fun t => decide (nowUs < t) then (w, none) else w.take nowUs

end FrameAckWindow

/-! ### Masks as sets of numbers -/

/-- Bit `k` of the mask is the number `n - k`. -/
def Shows (mask : UInt64) (n : ℤ) (P : ℤ → Prop) : Prop :=
  ∀ k < 64, (bit64 mask k = true ↔ P (n - k))

section Shows

variable {mask : UInt64} {n : ℤ} {P : ℤ → Prop}

/-- The window slides: what lies past its old end is in no set. -/
theorem Shows.slide (h : Shows mask n P) (hend : ∀ m, n < m → ¬P m) {f : ℕ} (hf : f < 64) :
    Shows (mask <<< UInt64.ofNat f) (n + f) P := by
  intro k hk
  rw [bit64_shiftLeft _ hf hk, Bool.and_eq_true, decide_eq_true_eq]
  by_cases hle : f ≤ k
  · have hsame : n + f - k = n - (k - f : ℕ) := by omega
    rw [h (k - f) (by omega), hsame]
    exact and_iff_right hle
  · have hnot : ¬P (n + f - k) := hend _ (by omega)
    simp [hle, hnot]

theorem shows_zero_of_jump (hend : ∀ m, n < m → ¬P m) {f : ℕ} (hf : 64 ≤ f) :
    Shows 0 (n + f) P := by
  intro k hk
  have hnot : ¬P (n + f - k) := hend _ (by omega)
  simp [hnot]

end Shows

namespace FrameAckWindow

/-! ### One bit -/

variable {b : ℕ} (w : FrameAckWindow)

theorem set_decoded (d : Bool) {k : ℕ} (hb : b < 64) (hk : k < 64) :
    bit64 (w.set b d).decoded k = (bit64 w.decoded k || (d && decide (k = b))) := by
  unfold set
  cases d with
  | true =>
    simp only [Bool.not_true, Bool.false_and, Bool.false_eq_true, if_false, if_true]
    rw [bit64_or _ _ hk, bit64_one_shiftLeft hb hk, Bool.true_and]
  | false =>
    simp only [Bool.not_false, Bool.true_and, decide_eq_true_eq, and_one_shiftLeft_ne_zero _ hb,
      Bool.false_eq_true, if_false, Bool.false_and, Bool.or_false]
    split_ifs with hset
    · rfl
    · rw [bit64_and _ _ hk, bit64_not _ hk, bit64_one_shiftLeft hb hk]
      by_cases hkb : k = b
      · subst hkb
        simp [hset]
      · simp [hkb]

theorem set_refused (d : Bool) {k : ℕ} (hb : b < 64) (hk : k < 64) :
    bit64 (w.set b d).refused k =
      if k = b then !d && (bit64 w.refused k || !bit64 w.decoded k) else bit64 w.refused k := by
  unfold set
  cases d with
  | true =>
    simp only [Bool.not_true, Bool.false_and, Bool.false_eq_true, if_false, if_true]
    rw [bit64_and _ _ hk, bit64_not _ hk, bit64_one_shiftLeft hb hk]
    by_cases hkb : k = b <;> simp [hkb]
  | false =>
    simp only [Bool.not_false, Bool.true_and, decide_eq_true_eq, and_one_shiftLeft_ne_zero _ hb,
      Bool.false_eq_true, if_false]
    split_ifs with hset hkb hkb
    · subst hkb
      simp [hset]
    · rfl
    · subst hkb
      rw [bit64_or _ _ hk, bit64_one_shiftLeft hb hk]
      simp [hset]
    · rw [bit64_or _ _ hk, bit64_one_shiftLeft hb hk]
      simp [hkb]

theorem set_newest (b : ℕ) (d : Bool) : (w.set b d).newest = w.newest := by
  unfold set
  dsimp only
  split_ifs <;> rfl

/-- The masks around frame `n` report the frames decoded, and those only refused. -/
structure Reports (w : FrameAckWindow) (n : ℤ) (said : ℤ → Bool → Prop) : Prop where
  decoded : Shows w.decoded n fun m => said m true
  refused : Shows w.refused n fun m => said m false ∧ ¬said m true

variable {w : FrameAckWindow} {n : ℤ} {said : ℤ → Bool → Prop}

/-- A call about a frame of the window sets its bit; a decode outranks a refusal. -/
theorem Reports.set (h : w.Reports n said) (hb : b < 64) (d : Bool) :
    (w.set b d).Reports n fun m e => said m e ∨ (m = n - b ∧ e = d) where
  decoded := by
    intro k hk
    have hpos : n - (k : ℤ) = n - b ↔ k = b := by omega
    have hdec := h.decoded k hk
    beta_reduce at hdec ⊢
    rw [set_decoded w d hb hk, Bool.or_eq_true, Bool.and_eq_true, decide_eq_true_eq, hdec, hpos]
    tauto
  refused := by
    intro k hk
    have hpos : n - (k : ℤ) = n - b ↔ k = b := by omega
    have hdec := h.decoded k hk
    have href := h.refused k hk
    beta_reduce at hdec href ⊢
    rw [set_refused w d hb hk, hpos]
    by_cases hkb : k = b
    · subst hkb
      have hundecoded : (!bit64 w.decoded k) = true ↔ ¬said (n - k) true := by
        rw [← hdec]
        simp
      rw [if_pos rfl]
      cases d with
      | true => simp
      | false =>
        simp only [Bool.not_false, Bool.true_and, Bool.or_eq_true, hundecoded, href, and_self,
          or_true, true_and, Bool.true_eq_false, and_false, or_false]
        tauto
    · rw [if_neg hkb, href]
      tauto

/-- The masks once the newest frame is `f` frames on. -/
def slid (w : FrameAckWindow) (f : ℕ) : FrameAckWindow :=
  if 64 ≤ f then { w with decoded := 0, refused := 0 }
  else
    { w with
      decoded := w.decoded <<< UInt64.ofNat f
      refused := w.refused <<< UInt64.ofNat f }

theorem Reports.slid (h : w.Reports n said) (hend : ∀ m, n < m → ∀ d, ¬said m d) (f : ℕ) :
    (w.slid f).Reports (n + f) said := by
  have hdecoded : ∀ m, n < m → ¬said m true := fun m hm => hend m hm true
  have hrefused : ∀ m, n < m → ¬(said m false ∧ ¬said m true) := fun m hm hs =>
    hend m hm false hs.1
  unfold FrameAckWindow.slid
  split_ifs with hf
  · exact ⟨shows_zero_of_jump hdecoded hf, shows_zero_of_jump hrefused hf⟩
  · exact ⟨h.decoded.slide hdecoded (not_le.1 hf), h.refused.slide hrefused (not_le.1 hf)⟩

/-- Something is unreported from now on. -/
def touched (w : FrameAckWindow) (nowUs : ℕ) : FrameAckWindow :=
  { w with dirtySinceUs := some (w.dirtySinceUs.getD nowUs) }

theorem Reports.touched (h : w.Reports n said) (nowUs : ℕ) : (w.touched nowUs).Reports n said :=
  ⟨h.decoded, h.refused⟩

theorem record_none (hw : w.newest = none) (seq : UInt32) (d : Bool) (nowUs : ℕ) :
    w.record seq d nowUs =
      ({ w with newest := some seq, decoded := 0, refused := 0 }.set 0 d).touched nowUs := by
  unfold record
  rw [hw]
  rfl

/-- A call when `s` is the newest frame: about that frame, a newer one or an older one. -/
theorem record_some {s : UInt32} (hw : w.newest = some s) (seq : UInt32) (d : Bool) (nowUs : ℕ) :
    w.record seq d nowUs =
      if ahead seq s = 0 then (w.set 0 d).touched nowUs
      else if ahead seq s < 2 ^ 30 then
        ({ w.slid (ahead seq s) with newest := some seq }.set 0 d).touched nowUs
      else if 64 ≤ ahead s seq then w
      else (w.set (ahead s seq) d).touched nowUs := by
  obtain ⟨newest, decoded, refused, dirty, sent⟩ := w
  cases hw
  rfl

end FrameAckWindow

/-! ### The log of calls -/

/-- A call of `record`: its frame, what it said, and the newest frame after it. -/
structure AckCall where
  number : ℤ
  decoded : Bool
  newest : ℤ
  deriving DecidableEq

/-- The window beside the log of its calls, newest first, and the newest frame with its word. -/
structure AckLog where
  window : FrameAckWindow := {}
  newest : Option (ℤ × UInt32) := none
  calls : List AckCall := []

/-- What the owner of the window does. -/
inductive AckOp
  | record (seq : UInt32) (decoded : Bool) (nowUs : ℕ)
  | takeDue (nowUs : ℕ)
  | takeOverdue (nowUs : ℕ)
  deriving DecidableEq

namespace AckLog

variable (l : AckLog)

/-- The frame a word means: the first one counts from zero, every other from the newest. -/
def number (seq : UInt32) : ℤ :=
  match l.newest with
  | none => seq.toNat
  | some (n, s) => nearest n s seq

/-- The newest frame after a call. -/
def newestWith (seq : UInt32) : ℤ × UInt32 :=
  match l.newest with
  | none => (l.number seq, seq)
  | some (n, s) => if n < l.number seq then (l.number seq, seq) else (n, s)

/-- A call of `record`. -/
def record (l : AckLog) (seq : UInt32) (decoded : Bool) (nowUs : ℕ) : AckLog where
  window := l.window.record seq decoded nowUs
  newest := some (l.newestWith seq)
  calls := ⟨l.number seq, decoded, (l.newestWith seq).1⟩ :: l.calls

/-- One operation. -/
def step : AckOp → AckLog
  | .record seq decoded nowUs => l.record seq decoded nowUs
  | .takeDue nowUs => { l with window := (l.window.takeDue nowUs).1 }
  | .takeOverdue nowUs => { l with window := (l.window.takeOverdue nowUs).1 }

/-- Some call said this about the frame while it was within 64 of the newest. -/
def Said (number : ℤ) (decoded : Bool) : Prop :=
  ∃ c ∈ l.calls, c.number = number ∧ c.decoded = decoded ∧ c.newest < c.number + 64

/-- The window and the log agree about the frames up to `n`. -/
structure Keeps (l : AckLog) (n : ℤ) (s : UInt32) : Prop where
  newest : l.window.newest = some s
  stands : Stands s n
  reports : l.window.Reports n l.Said
  le : ∀ c ∈ l.calls, c.number ≤ n
  mem : ∃ c ∈ l.calls, c.number = n

/-- The window and the log agree. -/
def Agree : Prop :=
  (l.newest = none ∧ l.window.newest = none ∧ l.calls = []) ∨
    ∃ n s, l.newest = some (n, s) ∧ l.Keeps n s

theorem said_record (seq : UInt32) (decoded : Bool) (nowUs : ℕ) (m : ℤ) (e : Bool) :
    (l.record seq decoded nowUs).Said m e ↔
      l.Said m e ∨
        (l.number seq = m ∧ decoded = e ∧ (l.newestWith seq).1 < l.number seq + 64) := by
  unfold Said record
  simp only [exists_mem_cons_iff]
  exact Or.comm

variable {l : AckLog} {s : UInt32}

theorem Keeps.not_said {n : ℤ} (h : l.Keeps n s) : ∀ m, n < m → ∀ d, ¬l.Said m d := by
  rintro m hm d ⟨c, hc, rfl, -⟩
  exact absurd (h.le c hc) (not_le.2 hm)

/-- What has to be shown about a call. -/
theorem agree_record_of {seq : UInt32} {d : Bool} {nowUs : ℕ} {n : ℤ}
    (hwith : l.newestWith seq = (n, s)) (hwindow : (l.window.record seq d nowUs).newest = some s)
    (hstands : Stands s n) (hreports : (l.window.record seq d nowUs).Reports n fun m e =>
      l.Said m e ∨ (l.number seq = m ∧ d = e ∧ n < l.number seq + 64))
    (hle : ∀ c ∈ l.calls, c.number ≤ n) (hnumber : l.number seq ≤ n)
    (hmem : l.number seq = n ∨ ∃ c ∈ l.calls, c.number = n) : (l.record seq d nowUs).Agree := by
  refine .inr ⟨n, s, congrArg some hwith, hwindow, hstands, ?_, ?_, ?_⟩
  · have hsaid : (l.record seq d nowUs).Said = fun m e =>
        l.Said m e ∨ (l.number seq = m ∧ d = e ∧ n < l.number seq + 64) := by
      funext m e
      rw [said_record, hwith]
    rw [hsaid]
    exact hreports
  · intro c hc
    rcases mem_cons.1 hc with rfl | hc
    · exact hnumber
    · exact hle c hc
  · rcases hmem with hnew | ⟨c, hc, hold⟩
    · exact ⟨_, mem_cons_self, hnew⟩
    · exact ⟨c, mem_cons_of_mem _ hc, hold⟩

/-- A call about the frame `b` before the newest, with `b` inside the window. -/
theorem call_inside {n number : ℤ} {b : ℕ} (hb : b < 64) (hnumber : number = n - b)
    (said : ℤ → Bool → Prop) (d : Bool) :
    (fun m e => said m e ∨ (number = m ∧ d = e ∧ n < number + 64)) =
      fun m e => said m e ∨ (m = n - b ∧ e = d) := by
  have hlt : n < n - b + 64 := by omega
  funext m e
  simp only [hnumber, hlt, and_true, eq_comm]

/-- The first call. -/
theorem agree_record_first (hnewest : l.newest = none) (hwindow : l.window.newest = none)
    (hcalls : l.calls = []) (seq : UInt32) (d : Bool) (nowUs : ℕ) :
    (l.record seq d nowUs).Agree := by
  have hnumber : l.number seq = seq.toNat := by simp only [number, hnewest]
  have hwith : l.newestWith seq = ((seq.toNat : ℤ), seq) := by
    simp only [newestWith, hnewest, hnumber]
  have hempty : FrameAckWindow.Reports
      { l.window with newest := some seq, decoded := 0, refused := 0 } seq.toNat l.Said := by
    have hsaid : l.Said = fun _ _ => False := by
      funext m e
      simp [Said, hcalls]
    rw [hsaid]
    exact ⟨fun k _ => by simp, fun k _ => by simp⟩
  have hset := hempty.set (show 0 < 64 by decide) d
  refine agree_record_of hwith ?_ (stands_toNat seq) ?_ ?_ hnumber.le (.inl hnumber)
  · rw [record_none hwindow]
    exact set_newest _ _ _
  · rw [call_inside (show 0 < 64 by decide) (by simpa using hnumber),
      record_none hwindow]
    exact hset.touched nowUs
  · rw [hcalls]
    nofun

/-- A later call: about the newest frame, a newer one, or an older one. -/
theorem Keeps.agree_record {n : ℤ} (h : l.Keeps n s) (hnewest : l.newest = some (n, s))
    (seq : UInt32) (d : Bool) (nowUs : ℕ) : (l.record seq d nowUs).Agree := by
  have hnumber : l.number seq = nearest n s seq := by simp only [number, hnewest]
  have hwith :
      l.newestWith seq = if n < nearest n s seq then (nearest n s seq, seq) else (n, s) := by
    simp only [newestWith, hnewest, hnumber]
  have hpos : (0 : ℕ) < 64 := by decide
  have hrecord := record_some h.newest seq d nowUs
  by_cases hzero : ahead seq s = 0
  · rw [if_pos hzero] at hrecord
    have hsame : nearest n s seq = n := by
      unfold nearest
      rw [if_pos (by omega), hzero, Nat.cast_zero, add_zero]
    rw [hsame, if_neg (lt_irrefl n)] at hwith
    rw [hsame] at hnumber
    refine agree_record_of hwith ?_ h.stands ?_ h.le hnumber.le (.inl hnumber)
    · rw [hrecord]
      exact (set_newest _ _ _).trans h.newest
    · rw [call_inside hpos (by simpa using hnumber), hrecord]
      exact (h.reports.set hpos d).touched nowUs
  rw [if_neg hzero] at hrecord
  by_cases hforward : ahead seq s < 2 ^ 30
  · rw [if_pos hforward] at hrecord
    have hnewer : nearest n s seq = n + ahead seq s := if_pos hforward
    have hlt : n < n + ahead seq s := by omega
    rw [hnewer, if_pos hlt] at hwith
    rw [hnewer] at hnumber
    refine agree_record_of hwith ?_ (h.stands.add_ahead seq) ?_ ?_ hnumber.le (.inl hnumber)
    · rw [hrecord]
      exact set_newest _ _ _
    · rw [call_inside hpos (by simpa using hnumber), hrecord]
      have hslid := h.reports.slid h.not_said (ahead seq s)
      have hseq : FrameAckWindow.Reports { l.window.slid (ahead seq s) with newest := some seq }
          (n + ahead seq s) l.Said := ⟨hslid.decoded, hslid.refused⟩
      exact (hseq.set hpos d).touched nowUs
    · exact fun c hc => (h.le c hc).trans hlt.le
  · have holder : nearest n s seq = n - ahead s seq := if_neg hforward
    have hle : ¬n < n - ahead s seq := by omega
    rw [holder, if_neg hle] at hwith
    rw [holder] at hnumber
    refine agree_record_of hwith ?_ h.stands ?_ h.le (by omega) (.inr h.mem)
    · rw [hrecord]
      split_ifs
      · exact h.newest
      · exact (set_newest _ _ _).trans h.newest
    · rw [hrecord]
      split_ifs with hgone
      · -- the frame fell off the window: nothing is set, and nothing counts as said
        have hnone : (fun m e => l.Said m e ∨
            (l.number seq = m ∧ d = e ∧ n < l.number seq + 64)) = l.Said := by
          have hnot : ¬n < l.number seq + 64 := by omega
          funext m e
          simp only [hnot, and_false, or_false]
        rw [hnone]
        exact h.reports
      · rw [call_inside (not_le.1 hgone) hnumber]
        exact (h.reports.set (not_le.1 hgone) d).touched nowUs

/-! ### Runs -/

theorem Agree.touch (h : l.Agree) {w : FrameAckWindow} (hnewest : w.newest = l.window.newest)
    (hdecoded : w.decoded = l.window.decoded) (hrefused : w.refused = l.window.refused) :
    Agree { l with window := w } := by
  rcases h with ⟨hnone, hwindow, hcalls⟩ | ⟨n, s, hsome, hkeeps⟩
  · exact .inl ⟨hnone, hnewest.trans hwindow, hcalls⟩
  · refine .inr ⟨n, s, hsome, hnewest.trans hkeeps.newest, hkeeps.stands, ⟨?_, ?_⟩, hkeeps.le,
      hkeeps.mem⟩
    · show Shows w.decoded n _
      rw [hdecoded]
      exact hkeeps.reports.decoded
    · show Shows w.refused n _
      rw [hrefused]
      exact hkeeps.reports.refused

end AckLog

namespace FrameAckWindow

/-- Taking an acknowledgement leaves the masks alone and copies them. -/
structure Copies (w : FrameAckWindow) (taken : FrameAckWindow × Option FrameAck) : Prop where
  newest : taken.1.newest = w.newest
  decoded : taken.1.decoded = w.decoded
  refused : taken.1.refused = w.refused
  copy : ∀ ack ∈ taken.2,
    w.newest = some ack.newestSeq ∧ ack.decodedMask = w.decoded ∧ ack.refusedMask = w.refused

variable (w : FrameAckWindow)

theorem copies_none : w.Copies (w, none) := ⟨rfl, rfl, rfl, nofun⟩

theorem take_copies (nowUs : ℕ) : w.Copies (w.take nowUs) := by
  unfold take
  cases hn : w.newest with
  | none => exact w.copies_none
  | some newest =>
    refine ⟨hn.symm ▸ rfl, rfl, rfl, ?_⟩
    rintro ack ⟨rfl⟩
    exact ⟨hn, rfl, rfl⟩

theorem takeDue_copies (nowUs : ℕ) : w.Copies (w.takeDue nowUs) := by
  unfold takeDue
  split_ifs
  · exact w.copies_none
  · exact w.copies_none
  · exact w.take_copies nowUs

theorem takeOverdue_copies (nowUs : ℕ) : w.Copies (w.takeOverdue nowUs) := by
  unfold takeOverdue
  split_ifs
  · exact w.copies_none
  · exact w.take_copies nowUs

end FrameAckWindow

namespace AckLog

theorem Agree.step {l : AckLog} (h : l.Agree) (op : AckOp) : (l.step op).Agree := by
  cases op with
  | record seq d nowUs =>
    rcases h with ⟨hnone, hwindow, hcalls⟩ | ⟨n, s, hsome, hkeeps⟩
    · exact agree_record_first hnone hwindow hcalls seq d nowUs
    · exact hkeeps.agree_record hsome seq d nowUs
  | takeDue nowUs =>
    have hc := l.window.takeDue_copies nowUs
    exact h.touch hc.newest hc.decoded hc.refused
  | takeOverdue nowUs =>
    have hc := l.window.takeOverdue_copies nowUs
    exact h.touch hc.newest hc.decoded hc.refused

theorem agree_run (ops : List AckOp) : (run step {} ops).Agree :=
  run_inv (fun _ op _ h => h.step op) (.inl ⟨rfl, rfl, rfl⟩)

end AckLog

/-- The words recorded, in order. -/
def AckOp.recorded : List AckOp → List UInt32
  | [] => []
  | .record seq _ _ :: ops => seq :: recorded ops
  | .takeDue _ :: ops => recorded ops
  | .takeOverdue _ :: ops => recorded ops

/-- `ps` numbers the words, each within `2 ^ 30` of the largest number before it. -/
def Paced : Option ℤ → List UInt32 → List ℤ → Prop
  | _, [], [] => True
  | newest, s :: ss, p :: ps =>
    Stands s p ∧ (∀ n ∈ newest, n - 2 ^ 30 ≤ p ∧ p < n + 2 ^ 30) ∧
      Paced (some (newest.elim p (max p))) ss ps
  | _, _, _ => False

namespace AckLog

/-- The newest frame after a call, when the calls are numbered and paced. -/
theorem newestWith_paced {l : AckLog} {n q p : ℤ} {s seq : UInt32}
    (hnewest : l.newest = some (n, s))
    (hs : Stands s q) (hseq : Stands seq p) (hpace : q - 2 ^ 30 ≤ p ∧ p < q + 2 ^ 30) :
    Stands (l.newestWith seq).2 (max p q) := by
  have hp : nearest q s seq = p := hseq.nearest_eq hs hpace.1 hpace.2
  have hshift : nearest n s seq - n = p - q := by
    rw [← hp]
    unfold nearest
    split_ifs <;> omega
  have hnumber : l.number seq = nearest n s seq := by simp only [number, hnewest]
  simp only [newestWith, hnewest, hnumber]
  split_ifs with hlt
  · rwa [max_eq_left (by omega)]
  · rwa [max_eq_right (by omega)]

/-- Along paced calls the newest word stands for the largest number. -/
theorem newest_paced (ops : List AckOp) :
    ∀ {l : AckLog} {n q : ℤ} {s : UInt32} {ps : List ℤ}, l.newest = some (n, s) → Stands s q →
      Paced (some q) (AckOp.recorded ops) ps →
      ∃ n' s' q', (run step l ops).newest = some (n', s') ∧ Stands s' q' ∧ q ≤ q' ∧
        (∀ p ∈ ps, p ≤ q') ∧ (q' = q ∨ q' ∈ ps) := by
  induction ops with
  | nil =>
    intro l n q s ps hnewest hs hpaced
    cases ps with
    | nil => exact ⟨n, s, q, hnewest, hs, le_rfl, nofun, .inl rfl⟩
    | cons p ps => exact hpaced.elim
  | cons op ops ih =>
    intro l n q s ps hnewest hs hpaced
    cases op with
    | takeDue nowUs =>
      exact ih (l := { l with window := (l.window.takeDue nowUs).1 }) hnewest hs hpaced
    | takeOverdue nowUs =>
      exact ih (l := { l with window := (l.window.takeOverdue nowUs).1 }) hnewest hs hpaced
    | record seq d nowUs =>
      cases ps with
      | nil => exact hpaced.elim
      | cons p ps =>
        obtain ⟨hseq, hpace, hrest⟩ := hpaced
        have hmax := newestWith_paced hnewest hs hseq (hpace q rfl)
        obtain ⟨n', s', q', hn', hs', hle, hall, hmem⟩ :=
          ih (l := l.record seq d nowUs) rfl hmax hrest
        refine ⟨n', s', q', hn', hs', (le_max_right p q).trans hle, ?_, ?_⟩
        · intro p' hp'
          rcases mem_cons.1 hp' with rfl | hp'
          · exact (le_max_left _ _).trans hle
          · exact hall p' hp'
        · rcases hmem with rfl | hmem
          · rcases max_choice p q with hm | hm
            · exact .inr (mem_cons.2 (.inl hm))
            · exact .inl hm
          · exact .inr (mem_cons_of_mem _ hmem)

/-- The same from the start. -/
theorem newest_paced_new (ops : List AckOp) :
    ∀ {l : AckLog} {ps : List ℤ} {n : ℤ} {s : UInt32}, l.newest = none →
      Paced none (AckOp.recorded ops) ps → (run step l ops).newest = some (n, s) →
      ∃ q ∈ ps, Stands s q ∧ ∀ p ∈ ps, p ≤ q := by
  induction ops with
  | nil =>
    intro l ps n s hnone _ hsome
    rw [run_nil, hnone] at hsome
    cases hsome
  | cons op ops ih =>
    intro l ps n s hnone hpaced hsome
    cases op with
    | takeDue nowUs =>
      exact ih (l := { l with window := (l.window.takeDue nowUs).1 }) hnone hpaced hsome
    | takeOverdue nowUs =>
      exact ih (l := { l with window := (l.window.takeOverdue nowUs).1 }) hnone hpaced hsome
    | record seq d nowUs =>
      cases ps with
      | nil => exact hpaced.elim
      | cons p ps =>
        obtain ⟨hseq, -, hrest⟩ := hpaced
        have hwith : (l.record seq d nowUs).newest = some (l.number seq, seq) := by
          simp only [record, newestWith, hnone]
        obtain ⟨n', s', q', hn', hs', hle, hall, hmem⟩ := newest_paced ops hwith hseq hrest
        cases hsome.symm.trans hn'
        refine ⟨q', ?_, hs', ?_⟩
        · rcases hmem with rfl | hmem
          · exact mem_cons_self
          · exact mem_cons_of_mem _ hmem
        · intro p' hp'
          rcases mem_cons.1 hp' with rfl | hp'
          · exact hle
          · exact hall p' hp'

end AckLog

/-- An acknowledgement the window gives out, with an ack batch or on its own. -/
def FrameAckWindow.Acks (w : FrameAckWindow) (ack : FrameAck) : Prop :=
  ∃ nowUs, (w.takeDue nowUs).2 = some ack ∨ (w.takeOverdue nowUs).2 = some ack

theorem FrameAckWindow.Acks.copies {w : FrameAckWindow} {ack : FrameAck} (h : w.Acks ack) :
    w.newest = some ack.newestSeq ∧ ack.decodedMask = w.decoded ∧ ack.refusedMask = w.refused := by
  obtain ⟨nowUs, hdue | hoverdue⟩ := h
  · exact (w.takeDue_copies nowUs).copy ack hdue
  · exact (w.takeOverdue_copies nowUs).copy ack hoverdue

theorem bit_of_stands {ack : FrameAck} {n : ℤ} {k : ℕ} {seq : UInt32} (hk : k < 64)
    (hnewest : Stands ack.newestSeq n) (hseq : Stands seq (n - k)) (mask : UInt64) :
    ack.bit mask seq = bit64 mask k := by
  have hahead : ahead ack.newestSeq seq = k := by
    have h := hnewest.ahead_eq_of_le hseq (by omega) (by omega)
    omega
  show (decide (ahead ack.newestSeq seq < 64) && bit64 mask (ahead ack.newestSeq seq)) = _
  rw [hahead, decide_eq_true hk, Bool.true_and]

/-- **What a frame acknowledgement says.** Whatever was recorded: the server reads the
acknowledgement as it was written; of each of the 64 frames up to the newest it says decoded if
some call said so while the frame was within 64 of the newest, refused if the calls so made only
said refused; no frame is both; and the newest word stands for the largest number recorded,
the calls' own numbers too if each was within `2 ^ 30` of the newest before it. -/
theorem frame_ack_fidelity (ops : List AckOp) {ack : FrameAck}
    (hack : (run AckLog.step {} ops).window.Acks ack) :
    FrameAck.decode ack.encode = .ok ack ∧
    (∃ n, Stands ack.newestSeq n ∧
      (∀ k : ℕ, k < 64 → ∀ seq, Stands seq (n - k) →
        (ack.isDecoded seq = true ↔ (run AckLog.step {} ops).Said (n - k) true) ∧
        (ack.isRefused seq = true ↔ (run AckLog.step {} ops).Said (n - k) false ∧
          ¬(run AckLog.step {} ops).Said (n - k) true)) ∧
      (∃ c ∈ (run AckLog.step {} ops).calls, c.number = n) ∧
      ∀ c ∈ (run AckLog.step {} ops).calls, c.number ≤ n) ∧
    ack.decodedMask &&& ack.refusedMask = 0 ∧
    ∀ ps, Paced none (AckOp.recorded ops) ps →
      ∃ q ∈ ps, Stands ack.newestSeq q ∧ ∀ p ∈ ps, p ≤ q := by
  obtain ⟨hnewest, hdecoded, hrefused⟩ := hack.copies
  rcases AckLog.agree_run ops with ⟨-, hwindow, -⟩ | ⟨n, s, hsome, hkeeps⟩
  · rw [hwindow] at hnewest
    cases hnewest
  have hs : s = ack.newestSeq := Option.some.inj (hkeeps.newest.symm.trans hnewest)
  subst hs
  refine ⟨ack.decode_encode, ⟨n, hkeeps.stands, ?_, hkeeps.mem, hkeeps.le⟩, ?_, ?_⟩
  · intro k hk seq hseq
    unfold FrameAck.isDecoded FrameAck.isRefused
    rw [bit_of_stands hk hkeeps.stands hseq, bit_of_stands hk hkeeps.stands hseq, hdecoded,
      hrefused]
    exact ⟨hkeeps.reports.decoded k hk, hkeeps.reports.refused k hk⟩
  · refine eq_zero_of_bit64 fun k hk => ?_
    rw [bit64_and _ _ hk, hdecoded, hrefused, Bool.eq_false_iff, Ne, Bool.and_eq_true,
      hkeeps.reports.decoded k hk, hkeeps.reports.refused k hk]
    exact fun hboth => hboth.2.2 hboth.1
  · intro ps hpaced
    exact AckLog.newest_paced_new ops rfl hpaced hsome

/-- Two frames recorded, the older one refused. -/
def shortRecording : List AckOp := [.record 5 false 0, .record 7 true 0]

theorem frame_ack_fidelity_short :
    (run AckLog.step {} shortRecording).window.Acks ⟨7, 1, 4⟩ ∧
      FrameAck.decode (FrameAck.encode ⟨7, 1, 4⟩) = .ok ⟨7, 1, 4⟩ ∧
      ∃ q ∈ [(5 : ℤ), 7], Stands 7 q ∧ ∀ p ∈ [(5 : ℤ), 7], p ≤ q := by
  have hack : (run AckLog.step {} shortRecording).window.Acks ⟨7, 1, 4⟩ :=
    ⟨0, .inl (by decide +kernel)⟩
  obtain ⟨hread, -, -, hpaced⟩ := frame_ack_fidelity shortRecording hack
  refine ⟨hack, hread, hpaced [5, 7] ⟨rfl, nofun, rfl, ?_, trivial⟩⟩
  rintro n ⟨rfl⟩
  decide

/-- Each word is within `2 ^ 30` of the one before, the last one `2 ^ 31 - 2` behind the second. -/
def pacedByPairs : List AckOp :=
  [.record 0 true 0, .record (2 ^ 30 - 1) true 0, .record 0 true 0, .record (2 ^ 30 + 1) true 0]

/-- It is not enough that consecutive calls are within `2 ^ 30` of each other: the word taken for
the newest can be older than a word recorded. -/
theorem newest_not_serial_maximum :
    ((AckOp.recorded pacedByPairs).IsChain fun a b =>
      ahead a b < 2 ^ 30 ∨ ahead b a < 2 ^ 30) ∧
    ((run AckLog.step {} pacedByPairs).window.takeDue 0).2.map (fun ack => ack.newestSeq) =
      some (2 ^ 30 + 1) ∧
    (0 : UInt32) ∈ AckOp.recorded pacedByPairs ∧ seqAfter 0 (2 ^ 30 + 1) = true := by
  decide +kernel

end Ghostframe.Client
