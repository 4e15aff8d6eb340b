import Ghostframe.Lib.Bytes

/-!
# Bit planes

A bit string is packed into bytes, the bit of index `i` at position `i % 8` of
byte `i / 8`.

* `bitAt`: read a bit;
* `setBitAt`: set a bit;
* `packBits`: the loop that packs a list of bits into zeroed bytes;
* `bitAt_packBits`: the bits are read back;
* `hasBit`, `withBit`: the bits of a 16-bit mask;
* `bit64`: the bits of a 64-bit mask;
* `and_or_eq_zero`: flags of a byte are clear together.
-/

namespace Ghostframe

open List Nat

/-- Bit `i` of a byte string, clear past its end. -/
def bitAt (xs : Bytes) (i : ℕ) : Bool :=
  decide ((xs.getD (i / 8) 0 >>> UInt8.ofNat (i % 8)) &&& 1 ≠ 0)

/-- Set bit `i` of a byte string. -/
def setBitAt (xs : Bytes) (i : ℕ) : Bytes :=
  xs.modify (i / 8) fun b => b ||| (1 <<< UInt8.ofNat (i % 8))

/-- Pack bits into `n` zeroed bytes. -/
def packBits (n : ℕ) (bits : List Bool) : Bytes :=
  bits.zipIdx.foldl (fun out e => if e.1 then setBitAt out e.2 else out) (List.replicate n 0)

theorem getD_modify {α : Type*} {xs : List α} {n : ℕ} (hn : n < xs.length) (f : α → α) (m : ℕ)
    (d : α) : (xs.modify n f).getD m d = if n = m then f (xs.getD m d) else xs.getD m d := by
  rw [getD_eq_getElem?_getD, getD_eq_getElem?_getD, getElem?_modify]
  split_ifs with h
  · simp [← h, getElem?_eq_getElem hn]
  · simp

theorem bit_ne_zero_iff (b : UInt8) {m : ℕ} (hm : m < 8) :
    (b >>> UInt8.ofNat m) &&& 1 ≠ 0 ↔ b.toNat.testBit m = true := by
  have hmod : (UInt8.ofNat m).toNat % 8 = m := by
    rw [UInt8.toNat_ofNat_of_lt' (by simp only [UInt8.size]; omega)]
    omega
  rw [Ne, ← UInt8.toNat_inj, UInt8.toNat_and, UInt8.toNat_shiftRight, hmod, Nat.testBit,
    Nat.and_comm]
  simp

variable (mask : UInt16) (x : UInt64) {n k : ℕ}

theorem testBit_or_shift (b : UInt8) (hk : k < 8) (m : ℕ) :
    (b ||| (1 <<< UInt8.ofNat k)).toNat.testBit m = (b.toNat.testBit m || decide (m = k)) := by
  have hmod : (UInt8.ofNat k).toNat % 8 = k := by
    rw [UInt8.toNat_ofNat_of_lt' (by simp only [UInt8.size]; omega)]
    omega
  rw [UInt8.toNat_or, UInt8.toNat_shiftLeft, hmod, Nat.testBit_or]
  have hone : (1 : UInt8).toNat = 1 := rfl
  rw [hone, Nat.testBit_mod_two_pow, Nat.one_shiftLeft, Nat.testBit_two_pow]
  by_cases h : m = k
  · simp [h, hk]
  · simp [h, Ne.symm h]

theorem bitAt_eq (xs : Bytes) (i : ℕ) :
    bitAt xs i = (xs.getD (i / 8) 0).toNat.testBit (i % 8) := by
  have hm : i % 8 < 8 := mod_lt _ (by decide)
  rw [bitAt, Bool.eq_iff_iff, decide_eq_true_eq]
  exact bit_ne_zero_iff _ hm

@[simp] theorem length_setBitAt (xs : Bytes) (i : ℕ) : (setBitAt xs i).length = xs.length :=
  length_modify ..

/-- Setting a bit changes that bit only. -/
theorem bitAt_setBitAt {xs : Bytes} {i : ℕ} (hi : i < 8 * xs.length) (j : ℕ) :
    bitAt (setBitAt xs i) j = (bitAt xs j || decide (j = i)) := by
  rw [bitAt_eq, bitAt_eq, setBitAt, getD_modify (by omega)]
  split_ifs with hbyte
  · have hmod : decide (j % 8 = i % 8) = decide (j = i) := by
      rw [decide_eq_decide]
      omega
    rw [testBit_or_shift _ (mod_lt _ (by decide)), hmod]
  · have hne : j ≠ i := fun h => hbyte (by rw [h])
    simp [hne]

@[simp] theorem bitAt_replicate_zero (n i : ℕ) : bitAt (List.replicate n 0) i = false := by
  have hzero : (replicate n (0 : UInt8)).getD (i / 8) 0 = 0 := by
    rw [getD_eq_getElem?_getD, getElem?_replicate]
    split_ifs <;> rfl
  rw [bitAt_eq, hzero]
  exact zero_testBit _

/-- The packing loop from index `k` on. -/
theorem bitAt_foldl_zipIdx (bits : List Bool) (k : ℕ) (out : Bytes)
    (hlen : k + bits.length ≤ 8 * out.length) (j : ℕ) :
    bitAt ((bits.zipIdx k).foldl (fun out e => if e.1 then setBitAt out e.2 else out) out) j =
      (bitAt out j || (decide (k ≤ j) && bits.getD (j - k) false)) := by
  induction bits generalizing k out with
  | nil => simp
  | cons b bits ih =>
    rw [length_cons] at hlen
    rw [zipIdx_cons, foldl_cons]
    simp only
    have hstep : ∀ j, bitAt (if b then setBitAt out k else out) j =
        (bitAt out j || (b && decide (j = k))) := by
      intro j
      cases b with
      | false => simp
      | true =>
        rw [if_pos rfl, bitAt_setBitAt (by omega)]
        simp
    have hsame : (if b then setBitAt out k else out).length = out.length := by cases b <;> simp
    rw [ih _ _ (by omega), hstep]
    rcases lt_trichotomy j k with hlt | rfl | hgt
    · simp [hlt.ne, hlt.not_ge, (Nat.lt_succ_of_lt hlt).not_ge]
    · simp
    · have hsub : j - k = j - (k + 1) + 1 := by omega
      simp [hsub, hgt, hgt.le, hgt.ne']

/-- **Packed bits are read back.** -/
theorem bitAt_packBits {bits : List Bool} (hlen : bits.length ≤ 8 * n) (i : ℕ) :
    bitAt (packBits n bits) i = bits.getD i false := by
  unfold packBits
  rw [bitAt_foldl_zipIdx bits 0 _ (by simpa using hlen)]
  simp

theorem length_packBits (n : ℕ) (bits : List Bool) : (packBits n bits).length = n := by
  unfold packBits
  suffices h : ∀ (l : List (Bool × ℕ)) (out : Bytes),
      (l.foldl (fun out e => if e.1 then setBitAt out e.2 else out) out).length = out.length by
    rw [h, length_replicate]
  intro l
  induction l with
  | nil => exact fun _ => rfl
  | cons e l ih =>
    intro out
    rw [foldl_cons, ih]
    split_ifs <;> simp

/-! ### 16-bit masks -/

/-- Is bit `k` of a mask set? -/
def hasBit (mask : UInt16) (k : ℕ) : Bool := decide (mask &&& (1 <<< UInt16.ofNat k) ≠ 0)

/-- Set bit `k` of a mask. -/
def withBit (mask : UInt16) (k : ℕ) : UInt16 := mask ||| (1 <<< UInt16.ofNat k)

theorem toNat_one_shiftLeft (hk : k < 16) : ((1 : UInt16) <<< UInt16.ofNat k).toNat = 2 ^ k := by
  have hmod : (UInt16.ofNat k).toNat % 16 = k := by
    rw [UInt16.toNat_ofNat_of_lt' (by simp only [UInt16.size]; omega)]
    omega
  have hone : (1 : UInt16).toNat = 1 := rfl
  have hlt : 2 ^ k < 2 ^ 16 := Nat.pow_lt_pow_right (by decide) hk
  rw [UInt16.toNat_shiftLeft, hmod, hone, Nat.one_shiftLeft, Nat.mod_eq_of_lt hlt]

theorem hasBit_eq (hk : k < 16) : hasBit mask k = mask.toNat.testBit k := by
  rw [hasBit, Bool.eq_iff_iff, decide_eq_true_eq, Ne, ← UInt16.toNat_inj, UInt16.toNat_and,
    toNat_one_shiftLeft hk, Nat.and_two_pow]
  cases mask.toNat.testBit k <;> simp

theorem hasBit_withBit {j : ℕ} (hk : k < 16) (hj : j < 16) :
    hasBit (withBit mask k) j = (hasBit mask j || decide (j = k)) := by
  rw [hasBit_eq _ hj, hasBit_eq _ hj, withBit, UInt16.toNat_or, toNat_one_shiftLeft hk,
    Nat.testBit_or, Nat.testBit_two_pow]
  simp only [eq_comm]

theorem hasBit_or (a b : UInt16) (hk : k < 16) :
    hasBit (a ||| b) k = (hasBit a k || hasBit b k) := by
  rw [hasBit_eq _ hk, hasBit_eq _ hk, hasBit_eq _ hk, UInt16.toNat_or, Nat.testBit_or]

theorem hasBit_not (hk : k < 16) : hasBit (~~~mask) k = !hasBit mask k := by
  rw [hasBit_eq _ hk, hasBit_eq _ hk]
  show (~~~mask.toBitVec).getLsbD k = !mask.toBitVec.getLsbD k
  simp [hk]

@[simp] theorem hasBit_zero (k : ℕ) : hasBit 0 k = false := by
  simp [hasBit]

theorem hasBit_one (hk : k < 16) : hasBit 1 k = decide (k = 0) := by
  rw [hasBit_eq _ hk]
  show testBit (2 ^ 0) k = _
  rw [testBit_two_pow]
  simp only [eq_comm]

/-! ### 64-bit masks -/

/-- Is bit `k` of a 64-bit mask set? -/
def bit64 (mask : UInt64) (k : ℕ) : Bool := decide ((mask >>> UInt64.ofNat k) &&& 1 = 1)

theorem toNat_ofNat_mod_64 (hn : n < 64) : (UInt64.ofNat n).toNat % 64 = n := by
  rw [UInt64.toNat_ofNat_of_lt' (by simp only [UInt64.size]; omega)]
  omega

theorem bit64_eq (mask : UInt64) (hk : k < 64) : bit64 mask k = mask.toNat.testBit k := by
  have hone : (1 : UInt64).toNat = 1 := rfl
  rw [bit64, Bool.eq_iff_iff, decide_eq_true_eq, ← UInt64.toNat_inj, UInt64.toNat_and,
    UInt64.toNat_shiftRight, toNat_ofNat_mod_64 hk, hone, Nat.testBit, Nat.and_comm]
  rcases Nat.mod_two_eq_zero_or_one (mask.toNat >>> k) with h | h <;>
    simp [Nat.one_and_eq_mod_two, h]

@[simp] theorem bit64_zero (k : ℕ) : bit64 0 k = false := by
  simp [bit64]

theorem bit64_or (y : UInt64) (hk : k < 64) : bit64 (x ||| y) k = (bit64 x k || bit64 y k) := by
  rw [bit64_eq _ hk, bit64_eq _ hk, bit64_eq _ hk, UInt64.toNat_or, Nat.testBit_or]

theorem bit64_and (y : UInt64) (hk : k < 64) : bit64 (x &&& y) k = (bit64 x k && bit64 y k) := by
  rw [bit64_eq _ hk, bit64_eq _ hk, bit64_eq _ hk, UInt64.toNat_and, Nat.testBit_and]

theorem bit64_not (hk : k < 64) : bit64 (~~~x) k = !bit64 x k := by
  rw [bit64_eq _ hk, bit64_eq _ hk]
  show (~~~x.toBitVec).getLsbD k = !x.toBitVec.getLsbD k
  simp [hk]

theorem bit64_shiftLeft (hn : n < 64) (hk : k < 64) :
    bit64 (x <<< UInt64.ofNat n) k = (decide (n ≤ k) && bit64 x (k - n)) := by
  rw [bit64_eq _ hk, bit64_eq _ (by omega), UInt64.toNat_shiftLeft, toNat_ofNat_mod_64 hn,
    Nat.testBit_mod_two_pow, Nat.testBit_shiftLeft]
  simp [hk]

theorem bit64_one (hk : k < 64) : bit64 1 k = decide (k = 0) := by
  rw [bit64_eq _ hk]
  show testBit (2 ^ 0) k = _
  rw [testBit_two_pow]
  simp only [eq_comm]

theorem bit64_one_shiftLeft (hn : n < 64) (hk : k < 64) :
    bit64 (1 <<< UInt64.ofNat n) k = decide (k = n) := by
  rw [bit64_shiftLeft _ hn hk, bit64_one (by omega), ← Bool.decide_and, decide_eq_decide]
  omega

/-- A mask without bits is zero. -/
theorem eq_zero_of_bit64 {x : UInt64} (h : ∀ k < 64, bit64 x k = false) : x = 0 := by
  apply UInt64.toNat_inj.1
  apply Nat.eq_of_testBit_eq
  intro k
  rw [UInt64.toNat_zero, zero_testBit]
  by_cases hk : k < 64
  · rw [← bit64_eq _ hk]
    exact h k hk
  · refine testBit_lt_two_pow (lt_of_lt_of_le x.toNat_lt ?_)
    exact Nat.pow_le_pow_right (by decide) (not_lt.1 hk)

/-- A bit is set when its mask does not clear everything. -/
theorem and_one_shiftLeft_ne_zero (hn : n < 64) :
    x &&& (1 <<< UInt64.ofNat n) ≠ 0 ↔ bit64 x n = true := by
  constructor
  · intro hne
    by_contra hoff
    refine hne (eq_zero_of_bit64 fun k hk => ?_)
    rw [bit64_and _ _ hk, bit64_one_shiftLeft hn hk]
    by_cases hkn : k = n
    · simpa [hkn] using hoff
    · simp [hkn]
  · intro hon hzero
    have hbit : bit64 (x &&& (1 <<< UInt64.ofNat n)) n = false := by rw [hzero, bit64_zero]
    rw [bit64_and _ _ hn, bit64_one_shiftLeft hn hn, hon] at hbit
    simp at hbit

/-! ### Flags of a byte -/

theorem and_or_eq_zero (x a b : UInt8) : x &&& (a ||| b) = 0 ↔ x &&& a = 0 ∧ x &&& b = 0 := by
  have hdistrib : x &&& (a ||| b) = (x &&& a) ||| (x &&& b) := by
    apply UInt8.toBitVec_inj.1
    ext i hi
    simp [Bool.and_or_distrib_left]
  rw [hdistrib, UInt8.or_eq_zero_iff]

end Ghostframe
