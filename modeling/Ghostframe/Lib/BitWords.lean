import Ghostframe.Lib.Bits

/-!
# Sets of bits in 64-bit words

A set of natural numbers below `64 * n` is a list of `n` words: number `i` is bit
`i % 64` of word `i / 64`.

* `wordsBit`, `setWordsBit`, `orWords`: read a bit, set one, unite two sets;
* `and_ne_zero_iff`: what a word masked by a range of ones says.
-/

namespace Ghostframe

open List Nat Option

variable (ws : List UInt64)

/-- Is `i` in the set? -/
def wordsBit (i : ℕ) : Bool := bit64 (ws.getD (i / 64) 0) (i % 64)

/-- Add `i` to the set, if it has a word for it. -/
def setWordsBit (i : ℕ) : List UInt64 :=
  ws.modify (i / 64) fun w => w ||| (1 <<< UInt64.ofNat (i % 64))

/-- Add the members of `b` that `a` has a word for. -/
def orWords (a b : List UInt64) : List UInt64 :=
  List.zipWith (· ||| ·) a b ++ a.drop b.length

@[simp] theorem length_setWordsBit (i : ℕ) :
    (setWordsBit ws i).length = ws.length :=
  length_modify ..

@[simp] theorem length_orWords (a b : List UInt64) : (orWords a b).length = a.length := by
  simp only [orWords, length_append, length_zipWith, length_drop]
  omega

@[simp] theorem wordsBit_replicate_zero (n i : ℕ) : wordsBit (List.replicate n 0) i = false := by
  have hzero : (replicate n (0 : UInt64)).getD (i / 64) 0 = 0 := by
    rw [getD_eq_getElem?_getD, getElem?_replicate]
    split_ifs <;> rfl
  rw [wordsBit, hzero, bit64_zero]

variable {ws : List UInt64}

theorem wordsBit_of_length_le {i : ℕ} (h : ws.length ≤ i / 64) :
    wordsBit ws i = false := by
  rw [wordsBit, getD_eq_getElem?_getD, getElem?_eq_none h, getD_none, bit64_zero]

/-- Setting a bit changes that bit only. -/
theorem wordsBit_setWordsBit {i : ℕ} (hi : i / 64 < ws.length) (j : ℕ) :
    wordsBit (setWordsBit ws i) j = (wordsBit ws j || decide (j = i)) := by
  rw [wordsBit, wordsBit, setWordsBit, getD_modify hi]
  split_ifs with hword
  · have hmod : decide (j % 64 = i % 64) = decide (j = i) := by
      rw [decide_eq_decide]
      omega
    rw [bit64_or _ _ (Nat.mod_lt _ (by decide)), bit64_one_shiftLeft (Nat.mod_lt _ (by decide))
      (mod_lt _ (by decide)), hmod]
  · have hne : j ≠ i := fun h => hword (by rw [h])
    simp [hne]

/-- Or-ing a mask into a word keeps every member. -/
theorem wordsBit_modify_or {n i : ℕ} {m : UInt64} (h : wordsBit ws i = true) :
    wordsBit (ws.modify n (· ||| m)) i = true := by
  have hlt : i / 64 < ws.length := by
    by_contra hge
    rw [wordsBit_of_length_le (not_lt.1 hge)] at h
    cases h
  rw [wordsBit, getD_eq_getElem?_getD, getElem?_eq_getElem hlt, getD_some] at h
  rw [wordsBit, getD_eq_getElem?_getD, getElem?_modify, getElem?_eq_getElem hlt]
  split_ifs
  · simp only [Option.map_eq_map, Option.map_some, Option.getD_some]
    rw [bit64_or _ _ (mod_lt _ (by decide)), h, Bool.true_or]
  · exact h

theorem rowMajor_lt {w h x y : ℕ} (hx : x < w) (hy : y < h) : y * w + x < w * h := by
  calc y * w + x < (y + 1) * w := by rw [succ_mul]; omega
    _ ≤ h * w := mul_le_mul_right _ hy
    _ = w * h := mul_comm _ _

/-- A row-major position determines its column and row. -/
theorem rowMajor_inj {w x y x' y' : ℕ} (hx : x < w) (hx' : x' < w) :
    y * w + x = y' * w + x' ↔ x = x' ∧ y = y' := by
  constructor
  · intro h
    have hmod := congrArg (· % w) h
    simp only [mul_add_mod', mod_eq_of_lt hx, mod_eq_of_lt hx'] at hmod
    subst hmod
    exact ⟨rfl, eq_of_mul_eq_mul_right (by omega) (add_right_cancel h)⟩
  · rintro ⟨rfl, rfl⟩
    rfl

/-- Setting a cell of a grid of bits sets that cell. -/
theorem wordsBit_setCell {w h x y tx ty : ℕ}
    (hlen : ws.length = (w * h + 63) / 64) (htx : tx < w) (hty : ty < h) :
    (x < w ∧ y < h) ∧ wordsBit (setWordsBit ws (ty * w + tx)) (y * w + x) = true ↔
      (x < w ∧ y < h) ∧ wordsBit ws (y * w + x) = true ∨ x = tx ∧ y = ty := by
  have hlt := rowMajor_lt htx hty
  have hword : (ty * w + tx) / 64 < ws.length := by
    rw [hlen]
    omega
  rw [wordsBit_setWordsBit hword, Bool.or_eq_true, decide_eq_true_iff]
  constructor
  · rintro ⟨hin, hbit | heq⟩
    · exact .inl ⟨hin, hbit⟩
    · exact .inr ((rowMajor_inj hin.1 htx).1 heq)
  · rintro (⟨hin, hbit⟩ | ⟨rfl, rfl⟩)
    · exact ⟨hin, .inl hbit⟩
    · exact ⟨⟨htx, hty⟩, .inr rfl⟩

theorem wordsBit_orWords {a b : List UInt64} (h : a.length = b.length) (i : ℕ) :
    wordsBit (orWords a b) i = (wordsBit a i || wordsBit b i) := by
  rw [orWords, ← h, drop_length, append_nil]
  by_cases hi : i / 64 < a.length
  · have hb : i / 64 < b.length := h ▸ hi
    simp only [wordsBit, getD_eq_getElem?_getD, getElem?_zipWith,
      getElem?_eq_getElem hi, getElem?_eq_getElem hb, getD_some]
    exact bit64_or _ _ (mod_lt _ (by decide))
  · have ha : a.length ≤ i / 64 := not_lt.1 hi
    have hb : b.length ≤ i / 64 := h ▸ ha
    have hboth : (zipWith (· ||| ·) a b).length ≤ i / 64 := by
      rw [length_zipWith]
      exact (min_le_left _ _).trans ha
    rw [wordsBit_of_length_le ha, wordsBit_of_length_le hb, wordsBit_of_length_le hboth]
    rfl

/-- A word holds no bit when it is zero. -/
theorem ne_zero_iff_bit64 {x : UInt64} : x ≠ 0 ↔ ∃ k < 64, bit64 x k = true := by
  constructor
  · intro hne
    by_contra hnone
    push Not at hnone
    exact hne (eq_zero_of_bit64 fun k hk => by simpa using hnone k hk)
  · rintro ⟨k, -, hbit⟩ rfl
    rw [bit64_zero] at hbit
    cases hbit

theorem and_ne_zero_iff {x m : UInt64} :
    x &&& m ≠ 0 ↔ ∃ k < 64, bit64 x k = true ∧ bit64 m k = true := by
  rw [ne_zero_iff_bit64]
  constructor
  · rintro ⟨k, hk, hbit⟩
    rw [bit64_and _ _ hk, Bool.and_eq_true] at hbit
    exact ⟨k, hk, hbit⟩
  · rintro ⟨k, hk, hbit⟩
    exact ⟨k, hk, by rw [bit64_and _ _ hk, Bool.and_eq_true]; exact hbit⟩

/-! ### Ranges of ones -/

/-- The word of ones. -/
def ones64 : UInt64 := ~~~0

theorem bit64_ones {k : ℕ} (hk : k < 64) : bit64 ones64 k = true := by
  rw [ones64, bit64_not _ hk, bit64_zero]
  rfl

variable {n k : ℕ}

theorem bit64_ones_shiftLeft (hn : n < 64) (hk : k < 64) :
    bit64 (ones64 <<< UInt64.ofNat n) k = decide (n ≤ k) := by
  rw [bit64_shiftLeft _ hn hk, bit64_ones (by omega), Bool.and_true]

/-- The `n` lowest bits. -/
theorem bit64_one_shiftLeft_sub_one (hn : n < 64) (hk : k < 64) :
    bit64 ((1 <<< UInt64.ofNat n) - 1) k = decide (k < n) := by
  have hlt : 2 ^ n < 2 ^ 64 := Nat.pow_lt_pow_right (by decide) hn
  have hshift : (1 <<< UInt64.ofNat n : UInt64).toNat = 2 ^ n := by
    rw [UInt64.toNat_shiftLeft, toNat_ofNat_mod_64 hn, UInt64.toNat_one, Nat.shiftLeft_eq, one_mul,
      Nat.mod_eq_of_lt hlt]
  have hone : (1 : UInt64) ≤ 1 <<< UInt64.ofNat n := by
    rw [UInt64.le_iff_toNat_le, hshift, UInt64.toNat_one]
    exact Nat.one_le_two_pow
  rw [bit64_eq _ hk, UInt64.toNat_sub_of_le _ _ hone, hshift, UInt64.toNat_one,
    Nat.testBit_two_pow_sub_one]

theorem bit64_shiftRight (x : UInt64) (hn : n < 64) (hk : k < 64) :
    bit64 (x >>> UInt64.ofNat n) k = (decide (n + k < 64) && bit64 x (n + k)) := by
  rw [bit64_eq _ hk, UInt64.toNat_shiftRight, toNat_ofNat_mod_64 hn, Nat.testBit_shiftRight]
  by_cases h : n + k < 64
  · rw [bit64_eq _ h]
    simp [h]
  · simp only [h, decide_false, Bool.false_and]
    refine Nat.testBit_lt_two_pow (lt_of_lt_of_le x.toNat_lt ?_)
    exact Nat.pow_le_pow_right (by decide) (not_lt.1 h)

theorem bit64_ones_shiftRight (hn : n < 64) (hk : k < 64) :
    bit64 (ones64 >>> UInt64.ofNat n) k = decide (n + k < 64) := by
  rw [bit64_shiftRight _ hn hk]
  by_cases h : n + k < 64
  · rw [bit64_ones h]
    simp
  · simp [h]

end Ghostframe
