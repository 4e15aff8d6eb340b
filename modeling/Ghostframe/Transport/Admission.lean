import Ghostframe.Lib.Run
import Ghostframe.Transport.Ledger

/-!
# The admission bucket

A token bucket gates the transmissions: a refill credits the elapsed time at the current rate, a
grant takes tokens, and a charge may leave a debt. The amounts are exact rationals here.

* `granted`: the bytes for which `tryTake` answered yes, less the refunds;
* `Covered`: what is banked is covered by what is left of the bound, and the debt is capped;
* `grants_bounded`: over every window that begins with a refill the grants are at most its cap and
  the later credits.
-/

namespace Ghostframe.Transport

/-- `burst_cap`; `BURST_WINDOW` is 33333 µs. -/
def burstCap (rate : ℚ) (mtu : ℕ) : ℚ := max (2 * mtu) (max rate 0 * (33333 / 1000000))

/-- `as_secs_f64`. -/
def asSecs (d : Duration) : ℚ := d / 1000000000

structure AdmissionBucket where
  tokens : ℚ := 0
  lastRefill : Option Instant := none
  debtCap : ℚ := 0
  grantedTotal : ℚ := 0
  spentTotal : ℚ := 0

/-- What is done to the bucket. -/
inductive BucketOp
  | refill (now : Instant) (rate : ℚ) (mtu : ℕ)
  | forfeitBank
  | tryTake (bytes : ℕ)
  | refund (bytes : ℕ)
  | charge (bytes : ℕ)

namespace AdmissionBucket

variable (b : AdmissionBucket)

/-- What a refill credits: nothing the first time. -/
def credit (now : Instant) (rate : ℚ) : ℚ :=
  b.lastRefill.elim 0 fun prev => max rate 0 * asSecs (now - prev)

/-- `refill`: the first one starts the bucket full. -/
def refill (now : Instant) (rate : ℚ) (mtu : ℕ) : AdmissionBucket :=
  let cap := burstCap rate mtu
  let tokens := if b.lastRefill = none then cap else min (b.tokens + b.credit now rate) cap
  { b with
    tokens := max tokens (-cap)
    lastRefill := some now
    debtCap := cap
    grantedTotal := b.grantedTotal + b.credit now rate }

/-- `forfeit_bank`. -/
def forfeitBank : AdmissionBucket :=
  { b with tokens := b.tokens - max b.tokens 0 }

/-- `try_take`: never partial and never into debt. -/
def tryTake (bytes : ℕ) : AdmissionBucket × Bool :=
  if bytes ≤ b.tokens then
    ({ b with tokens := b.tokens - bytes, spentTotal := b.spentTotal + bytes }, true)
  else (b, false)

/-- `refund`. -/
def refund (bytes : ℕ) : AdmissionBucket :=
  { b with tokens := b.tokens + bytes, spentTotal := b.spentTotal - bytes }

/-- `charge`: the debt stops at its cap. -/
def charge (bytes : ℕ) : AdmissionBucket :=
  { b with tokens := max (b.tokens - bytes) (-b.debtCap) }

def step : BucketOp → AdmissionBucket
  | .refill now rate mtu => b.refill now rate mtu
  | .forfeitBank => b.forfeitBank
  | .tryTake bytes => (b.tryTake bytes).1
  | .refund bytes => b.refund bytes
  | .charge bytes => b.charge bytes

end AdmissionBucket

open AdmissionBucket

namespace BucketOp

/-- Rate times elapsed time, for a refill that follows one at `last`. -/
def credit (last : Instant) : BucketOp → ℚ
  | refill now rate _ => max rate 0 * asSecs (now - last)
  | _ => 0

/-- The time of the latest refill. -/
def refilledAt (last : Instant) : BucketOp → Instant
  | refill now _ _ => now
  | _ => last

/-- The burst cap of the latest refill. -/
def cap (cap : ℚ) : BucketOp → ℚ
  | refill _ rate mtu => burstCap rate mtu
  | _ => cap

/-- The bytes an operation grants, less those it gives back. -/
def given (b : AdmissionBucket) : BucketOp → ℚ
  | tryTake bytes => if (b.tryTake bytes).2 then bytes else 0
  | refund bytes => -bytes
  | _ => 0

end BucketOp

/-- What the calls of a window grant, net of refunds. -/
def granted (b : AdmissionBucket) : List BucketOp → ℚ
  | [] => 0
  | op :: ops => op.given b + granted (b.step op) ops

/-- What the refills after one at `last` credit. -/
def credited (last : Instant) : List BucketOp → ℚ
  | [] => 0
  | op :: ops => op.credit last + credited (op.refilledAt last) ops

theorem burstCap_nonneg (rate : ℚ) (mtu : ℕ) : 0 ≤ burstCap rate mtu :=
  le_max_of_le_left (by positivity)

/-- What is banked is covered by `bound`, and the debt is capped. -/
structure Covered (bound : ℚ) (last : Instant) (b : AdmissionBucket) : Prop where
  refilled : b.lastRefill = some last
  cap : 0 ≤ b.debtCap
  debt : -b.tokens ≤ b.debtCap
  covered : max b.tokens 0 ≤ bound

variable {bound : ℚ} {last : Instant} {b : AdmissionBucket}

/-- A credit raises what is left of the bound, and a grant lowers it. -/
theorem Covered.step (h : Covered bound last b) (op : BucketOp) :
    Covered (bound + op.credit last - op.given b) (op.refilledAt last) (b.step op) ∧
      (b.step op).debtCap = op.cap b.debtCap := by
  obtain ⟨hlast, hcap, hdebt, hcov⟩ := h
  have hpos := le_max_right b.tokens 0
  have htok := le_max_left b.tokens 0
  cases op with
  | refill now rate mtu =>
    have hburst := burstCap_nonneg rate mtu
    have hsecs : 0 ≤ max rate 0 * asSecs (now - last) :=
      mul_nonneg (le_max_right _ _) (by unfold asSecs; positivity)
    refine ⟨⟨rfl, hburst, neg_le.1 (le_max_right _ _), ?_⟩, rfl⟩
    simp only [AdmissionBucket.step, refill, hlast, credit, Option.elim_some, reduceCtorEq,
      if_false, BucketOp.credit, BucketOp.given]
    -- forgiving a debt below the new cap leaves the bank empty
    exact max_le (max_le ((min_le_left _ _).trans (by linarith)) (by linarith)) (by linarith)
  | forfeitBank =>
    have hbank : max b.tokens 0 ≤ b.tokens + b.debtCap := max_le (by linarith) (by linarith)
    have hzero : max (b.tokens - max b.tokens 0) 0 = 0 := max_eq_right (by linarith)
    refine ⟨⟨hlast, hcap, ?_, ?_⟩, rfl⟩ <;>
      simp only [AdmissionBucket.step, forfeitBank, hzero, BucketOp.credit, BucketOp.given] <;>
      linarith
  | tryTake bytes =>
    simp only [AdmissionBucket.step, BucketOp.credit, BucketOp.given, tryTake]
    by_cases htake : bytes ≤ b.tokens
    · simp only [if_pos htake, if_true]
      refine ⟨⟨hlast, hcap, ?_, max_le ?_ (by linarith)⟩, rfl⟩ <;> dsimp only <;> linarith
    · simp only [if_neg htake, Bool.false_eq_true, if_false]
      exact ⟨⟨hlast, hcap, hdebt, by linarith⟩, rfl⟩
  | refund bytes =>
    refine ⟨⟨hlast, hcap, ?_, max_le ?_ ?_⟩, rfl⟩ <;>
      simp only [AdmissionBucket.step, refund, BucketOp.credit, BucketOp.given] <;> linarith
  | charge bytes =>
    have hbytes : (0 : ℚ) ≤ bytes := Nat.cast_nonneg bytes
    refine ⟨⟨hlast, hcap, neg_le.1 (le_max_right _ _), max_le (max_le ?_ ?_) ?_⟩, rfl⟩ <;>
      simp only [BucketOp.credit, BucketOp.given] <;> linarith

theorem Covered.run (h : Covered bound last b) (ops : List BucketOp) :
    granted b ops ≤ bound + credited last ops ∧
      -(Ghostframe.run AdmissionBucket.step b ops).tokens ≤ ops.foldl BucketOp.cap b.debtCap := by
  induction ops generalizing bound last b with
  | nil =>
    have := le_max_right b.tokens 0
    refine ⟨?_, h.debt⟩
    rw [credited, granted]
    linarith [h.covered]
  | cons op ops ih =>
    obtain ⟨hnext, hcap⟩ := h.step op
    obtain ⟨hgrants, hdebt⟩ := ih hnext
    rw [run_cons, credited, granted, List.foldl_cons, ← hcap]
    exact ⟨by linarith, hdebt⟩

/-- **After a refill, the grants are at most its burst cap and what the later refills credit, and
the debt is at most the cap of the latest refill.** -/
theorem grants_bounded (before window : List BucketOp) (now : Instant) (rate : ℚ) (mtu : ℕ) :
    let opened := (run step {} before).refill now rate mtu
    granted opened window ≤ burstCap rate mtu + credited now window ∧
    -(run step opened window).tokens ≤ window.foldl BucketOp.cap (burstCap rate mtu) := by
  intro opened
  have hcap := burstCap_nonneg rate mtu
  have hbank : opened.tokens ≤ burstCap rate mtu := by
    refine max_le ?_ (by linarith)
    split_ifs
    · exact le_rfl
    · exact min_le_right _ _
  have hopened : Covered (burstCap rate mtu) now opened :=
    ⟨rfl, hcap, neg_le.1 (le_max_right _ _), max_le hbank hcap⟩
  exact hopened.run window

/-- A bank of 200 bytes grants 150 of the 300 asked for, 50 are given back, and after a second at
1000 bytes per second 200 more are granted. -/
theorem grants_bounded_second :
    let opened := (run step {} []).refill 0 1000 100
    let window : List BucketOp := [.tryTake 150, .tryTake 150, .refund 50, .charge 500,
      .refill 1000000000 1000 100, .tryTake 200]
    granted opened window = 300 ∧ granted opened window ≤ 200 + 1000 := by
  intro opened window
  have hgranted : granted opened window = 300 := by decide +kernel
  have hbound := (grants_bounded [] window 0 1000 100).1
  have hright : burstCap 1000 100 + credited 0 window = 200 + 1000 := by decide +kernel
  exact ⟨hgranted, hright ▸ hbound⟩

end Ghostframe.Transport
