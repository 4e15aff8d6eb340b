import Mathlib

/-!
# Byte strings and the numbers they write

A byte string is a list of bytes.

* `be16`, `be32` and their readers `ofBe16`, `ofBe32`, inverse to each other;
  `le16`, `le32`: the same bytes in the other order;
* `be16At`, `be32At`: the number at an offset of a byte string, as a header
  decoder reads it;
* `le32At`, `le64At`: the same for little-endian numbers;
* `chunks`: splitting a byte string into pieces of a fixed size, and that
  concatenating the pieces gives it back.
-/

namespace Ghostframe

open List UInt32

/-- A byte string. -/
abbrev Bytes := List UInt8

/-! ### Big-endian numbers -/

/-- `u16::to_be_bytes`. -/
def be16 (x : UInt16) : Bytes := [.ofNat (x.toNat / 256), x.toUInt8]

/-- `u32::to_be_bytes`. -/
def be32 (x : UInt32) : Bytes :=
  [.ofNat (x.toNat / 16777216), .ofNat (x.toNat / 65536), .ofNat (x.toNat / 256), x.toUInt8]

/-- `u16::to_le_bytes`. -/
def le16 (x : UInt16) : Bytes := (be16 x).reverse

/-- `u32::to_le_bytes`. -/
def le32 (x : UInt32) : Bytes := (be32 x).reverse

/-- `u16::from_be_bytes`. -/
def ofBe16 (a b : UInt8) : UInt16 := .ofNat (a.toNat * 256 + b.toNat)

/-- `u32::from_be_bytes`. -/
def ofBe32 (a b c d : UInt8) : UInt32 :=
  .ofNat (a.toNat * 16777216 + b.toNat * 65536 + c.toNat * 256 + d.toNat)

/-- The big-endian 16-bit number at an offset. -/
def be16At (data : Bytes) (i : ℕ) : UInt16 := ofBe16 (data.getD i 0) (data.getD (i + 1) 0)

/-- The big-endian 32-bit number at an offset. -/
def be32At (data : Bytes) (i : ℕ) : UInt32 :=
  ofBe32 (data.getD i 0) (data.getD (i + 1) 0) (data.getD (i + 2) 0) (data.getD (i + 3) 0)

@[simp] theorem length_be16 (x : UInt16) : (be16 x).length = 2 := rfl

variable (x : UInt32)

@[simp] theorem length_be32 : (be32 x).length = 4 := rfl

theorem toNat_ofBe32 (a b c d : UInt8) :
    (ofBe32 a b c d).toNat =
      a.toNat * 16777216 + b.toNat * 65536 + c.toNat * 256 + d.toNat := by
  have ha := a.toNat_lt
  have hb := b.toNat_lt
  have hc := c.toNat_lt
  have hd := d.toNat_lt
  rw [ofBe32, toNat_ofNat_of_lt']
  simp only [size]
  omega

theorem toNat_ofBe16 (a b : UInt8) : (ofBe16 a b).toNat = a.toNat * 256 + b.toNat := by
  have ha := a.toNat_lt
  have hb := b.toNat_lt
  rw [ofBe16, UInt16.toNat_ofNat_of_lt']
  simp only [UInt16.size]
  omega

@[simp] theorem ofBe16_be16 (x : UInt16) :
    ofBe16 (.ofNat (x.toNat / 256)) x.toUInt8 = x := by
  have hx := x.toNat_lt
  rw [← UInt16.toNat_inj, toNat_ofBe16, UInt8.toNat_ofNat', UInt16.toNat_toUInt8]
  omega

@[simp] theorem ofBe32_be32 :
    ofBe32 (.ofNat (x.toNat / 16777216)) (.ofNat (x.toNat / 65536)) (.ofNat (x.toNat / 256))
      x.toUInt8 = x := by
  have hx := x.toNat_lt
  rw [← UInt32.toNat_inj, toNat_ofBe32]
  simp only [UInt8.toNat_ofNat', UInt32.toNat_toUInt8]
  omega

variable (pre post : Bytes)

theorem be16At_append (x : UInt16) :
    be16At (pre ++ (be16 x ++ post)) pre.length = x := by
  simp [be16At, be16]

/-! ### Little-endian numbers -/

/-- `u64::to_le_bytes`. -/
def le64 (x : UInt64) : Bytes := (List.range 8).map fun i => .ofNat (x.toNat / 256 ^ i)

/-- The number a little-endian byte string writes. -/
def leNat : Bytes → ℕ
  | [] => 0
  | b :: bs => b.toNat + 256 * leNat bs

/-- The little-endian 32-bit number at an offset. -/
def le32At (data : Bytes) (i : ℕ) : UInt32 := .ofNat (leNat ((data.drop i).take 4))

/-- The little-endian 64-bit number at an offset. -/
def le64At (data : Bytes) (i : ℕ) : UInt64 := .ofNat (leNat ((data.drop i).take 8))

@[simp] theorem length_le32 : (le32 x).length = 4 := rfl

@[simp] theorem length_le64 (x : UInt64) : (le64 x).length = 8 := rfl

theorem leNat_le32 : leNat (le32 x) = x.toNat := by
  have hx := x.toNat_lt
  simp only [le32, be32, reverse_cons, reverse_nil, nil_append, cons_append,
    leNat, UInt8.toNat_ofNat', toNat_toUInt8]
  omega

theorem leNat_le64 (x : UInt64) : leNat (le64 x) = x.toNat := by
  have hx := x.toNat_lt
  simp only [le64, range, range.loop, map_cons, map_nil, leNat,
    UInt8.toNat_ofNat']
  omega

theorem le32At_append (x : UInt32) :
    le32At (pre ++ (le32 x ++ post)) pre.length = x := by
  have htake : (le32 x ++ post).take 4 = le32 x := List.take_left' (length_le32 x)
  rw [le32At, List.drop_left, htake, leNat_le32, UInt32.ofNat_toNat]

theorem le64At_append (x : UInt64) :
    le64At (pre ++ (le64 x ++ post)) pre.length = x := by
  have htake : (le64 x ++ post).take 8 = le64 x := take_left' (length_le64 x)
  rw [le64At, drop_left, htake, leNat_le64, UInt64.ofNat_toNat]

/-! ### Chunks -/

/-- `slice::chunks`: pieces of `size` elements, the last one shorter; `fuel` bounds their number. -/
def chunksOf {α : Type*} (size : ℕ) : ℕ → List α → List (List α)
  | 0, _ => []
  | _ + 1, [] => []
  | fuel + 1, xs => xs.take size :: chunksOf size fuel (xs.drop size)

/-- `slice::chunks`. -/
def chunks {α : Type*} (size : ℕ) (xs : List α) : List (List α) := chunksOf size xs.length xs

/-- The chunks of a list, concatenated, are the list. -/
theorem flatten_chunksOf {α : Type*} {size : ℕ} (hsize : 0 < size) (fuel : ℕ) (xs : List α)
    (hfuel : xs.length ≤ fuel) : (chunksOf size fuel xs).flatten = xs := by
  induction fuel generalizing xs with
  | zero =>
    have : xs = [] := length_eq_zero_iff.1 (by omega)
    simp [this, chunksOf]
  | succ fuel ih =>
    cases xs with
    | nil => rfl
    | cons x xs =>
      have hlen : ((x :: xs).drop size).length ≤ fuel := by
        simp only [length_drop, length_cons] at hfuel ⊢
        omega
      rw [chunksOf, flatten_cons, ih _ hlen, take_append_drop]
      simp

theorem flatten_chunks {α : Type*} {size : ℕ} (hsize : 0 < size) (xs : List α) :
    (chunks size xs).flatten = xs :=
  flatten_chunksOf hsize xs.length xs le_rfl

end Ghostframe
