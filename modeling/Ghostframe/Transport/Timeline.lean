import Mathlib

/-!
# Unwrapping 16-bit timestamps

The wire carries the low 16 bits of a millisecond clock. `Lo16Timeline` puts every sample where
it is nearest to the one before it.

* `unwrapMs_next`: a step of less than half a period is followed exactly;
* `unwrap_exact`: so the series is, up to where it is anchored and to the floor at zero.
-/

namespace Ghostframe.Transport

/-- `PERIOD`. -/
def period : ℤ := 65536

/-- `HALF_PERIOD`. -/
def halfPeriod : ℤ := 32768

/-- The position of the last sample; it may be negative. -/
structure Lo16Timeline where
  last : Option ℤ := none

namespace Lo16Timeline

/-- `unwrap_ms`: `last & !(PERIOD - 1)` is the multiple of the period below `last`, and a sample
fills the 16 bits that are clear in it. -/
def unwrapMs (t : Lo16Timeline) (lo16 : UInt16) : Lo16Timeline × ℕ :=
  match t.last with
  | none => (⟨some lo16.toNat⟩, lo16.toNat)
  | some last =>
    let base := last / period * period
    let candidate := base + lo16.toNat
    let candidate :=
      if candidate - last > halfPeriod then candidate - period
      else if last - candidate > halfPeriod then candidate + period
      else candidate
    (⟨some candidate⟩, (max candidate 0).toNat)

/-- The timeline after the first `n` samples of a series. -/
def after (x : ℕ → ℤ) : ℕ → Lo16Timeline
  | 0 => {}
  | n + 1 => ((after x n).unwrapMs (UInt16.ofInt (x n))).1

theorem toNat_ofInt (a : ℤ) : ((UInt16.ofInt a).toNat : ℤ) = a % 65536 := by
  rw [UInt16.ofInt, UInt16.toNat_ofNat']
  omega

/-- A timeline that is a whole number of periods off follows a step of less than half a period. -/
theorem unwrapMs_next {t : Lo16Timeline} {a b d : ℤ} (ht : t.last = some (a + d))
    (hd : d % 65536 = 0) (hstep : |b - a| < 32768) :
    t.unwrapMs (UInt16.ofInt b) = (⟨some (b + d)⟩, (max (b + d) 0).toNat) := by
  rw [abs_lt] at hstep
  -- one of the three candidates is within half a period of the last position
  have hnear : (let candidate := (a + d) / period * period + (UInt16.ofInt b).toNat
      if candidate - (a + d) > halfPeriod then candidate - period
      else if a + d - candidate > halfPeriod then candidate + period
      else candidate) = b + d := by
    simp only [toNat_ofInt, period, halfPeriod]
    split_ifs <;> omega
  simp only [unwrapMs, ht]
  rw [hnear]

variable {x : ℕ → ℤ}

theorem after_last (hstep : ∀ i, |x (i + 1) - x i| < 32768) (n : ℕ) :
    (after x (n + 1)).last = some (x n + (x 0 % 65536 - x 0)) := by
  induction n with
  | zero => simp [after, unwrapMs, toNat_ofInt]
  | succ n ih => rw [after, unwrapMs_next ih (by omega) (hstep n)]

/-- **The low 16 bits of a series whose steps are below half a period give the series back, from
where its first sample is anchored and floored at zero.** -/
theorem unwrap_exact (hstep : ∀ i, |x (i + 1) - x i| < 32768) (n : ℕ) :
    (((after x n).unwrapMs (UInt16.ofInt (x n))).2 : ℤ) = max 0 (x n - x 0 + x 0 % 65536) := by
  cases n with
  | zero =>
    simp only [after, unwrapMs, toNat_ofInt]
    omega
  | succ n =>
    rw [unwrapMs_next (after_last hstep n) (by omega) (hstep n)]
    omega

/-- A clock passes the end of a period. -/
theorem unwrap_exact_wrap :
    (((after (65000 + 1000 * ·) 1).unwrapMs (UInt16.ofInt 66000)).2 : ℤ) = 66000 :=
  unwrap_exact (x := (65000 + 1000 * ·)) (fun i => abs_lt.2 (by omega)) 1

end Lo16Timeline

end Ghostframe.Transport
