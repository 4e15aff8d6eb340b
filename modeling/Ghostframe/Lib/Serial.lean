import Mathlib

/-!
# Serial numbers

Things are numbered from the integers and carry the last 31 bits of their number in
a 32-bit word. `Stands s p` says that the word `s` stands for the number `p`.

* `nearest`: the number a word stands for, read as close as possible to a known one;
* `Stands.nearest_eq`: within `2 ^ 30` that is the number it was made from;
* `Turning`: a renaming of the words that changes no distance; `turn b` is one.
-/

namespace Ghostframe.Serial

/-- How far `a` is ahead of `b`, on the circle of `2 ^ 31`. -/
def ahead (a b : UInt32) : ℕ := ((a - b) &&& 0x7FFFFFFF).toNat

/-- The word `s` stands for the number `p`. -/
def Stands (s : UInt32) (p : ℤ) : Prop := (s.toNat : ℤ) % 2 ^ 31 = p % 2 ^ 31

instance (s : UInt32) (p : ℤ) : Decidable (Stands s p) := inferInstanceAs (Decidable (_ = _))

theorem stands_toNat (s : UInt32) : Stands s s.toNat := rfl

theorem toNat_and_mask (x : UInt32) : (x &&& 0x7FFFFFFF).toNat = x.toNat % 2 ^ 31 := by
  exact Nat.and_two_pow_sub_one_eq_mod x.toNat 31

theorem ahead_eq (a b : UInt32) : ahead a b = (a.toNat + 2 ^ 32 - b.toNat) % 2 ^ 31 := by
  have hb := b.toNat_lt
  rw [ahead, toNat_and_mask, UInt32.toNat_sub]
  omega

variable {a b s t : UInt32} {p q : ℤ}

theorem Stands.ahead_emod (ha : Stands a p) (hb : Stands b q) :
    (ahead a b : ℤ) = (p - q) % 2 ^ 31 := by
  have hlt := b.toNat_lt
  unfold Stands at ha hb
  rw [ahead_eq]
  omega

theorem Stands.ahead_eq_of_le (ha : Stands a p) (hb : Stands b q) (hle : q ≤ p)
    (hlt : p < q + 2 ^ 31) : (ahead a b : ℤ) = p - q := by
  rw [ha.ahead_emod hb]
  omega

theorem Stands.add_ahead (hb : Stands b q) (a : UInt32) : Stands a (q + ahead a b) := by
  have h := (stands_toNat a).ahead_emod hb
  unfold Stands at hb ⊢
  omega

/-- The number `s` stands for, read as close as possible to `t`, which stands for `q`. -/
def nearest (q : ℤ) (t s : UInt32) : ℤ :=
  if ahead s t < 2 ^ 30 then q + ahead s t else q - ahead t s

theorem Stands.nearest_eq (hs : Stands s p) (ht : Stands t q) (hlow : q - 2 ^ 30 ≤ p)
    (hhigh : p < q + 2 ^ 30) : Serial.nearest q t s = p := by
  have hst := hs.ahead_emod ht
  have hts := ht.ahead_emod hs
  unfold Serial.nearest
  split_ifs <;> omega

/-! ### Turning the circle -/

/-- A renaming of the words that changes no distance. -/
structure Turning where
  toFun : UInt32 → UInt32
  injective : Function.Injective toFun
  ahead_eq : ∀ x y, ahead (toFun x) (toFun y) = ahead x y

instance : CoeFun Turning fun _ => UInt32 → UInt32 := ⟨Turning.toFun⟩

theorem Turning.map_eq_some (t : Turning) {o : Option UInt32} {s : UInt32} :
    o.map t = some (t s) ↔ o = some s := by
  cases o with
  | none => simp
  | some r => simp [t.injective.eq_iff]

theorem Turning.contains_map (t : Turning) (l : List UInt32) (s : UInt32) :
    (l.map t).contains (t s) = l.contains s := by
  rw [Bool.eq_iff_iff, List.contains_iff_mem, List.contains_iff_mem]
  exact List.mem_map_of_injective t.injective

/-- The word `b` steps along the circle; the top bit is not part of the number. -/
def turnBy (b s : UInt32) : UInt32 :=
  .ofNat (s.toNat / 2 ^ 31 * 2 ^ 31 + (s.toNat + b.toNat) % 2 ^ 31)

theorem toNat_turnBy (b s : UInt32) :
    (turnBy b s).toNat = s.toNat / 2 ^ 31 * 2 ^ 31 + (s.toNat + b.toNat) % 2 ^ 31 := by
  have hs := s.toNat_lt
  have hsize : UInt32.size = 2 ^ 32 := rfl
  rw [turnBy, UInt32.toNat_ofNat_of_lt']
  omega

theorem turnBy_injective (b : UInt32) : Function.Injective (turnBy b) := by
  intro x y h
  have hnat := congrArg UInt32.toNat h
  rw [toNat_turnBy, toNat_turnBy] at hnat
  apply UInt32.toNat_inj.1
  omega

theorem Stands.turnBy (hs : Stands s p) (b : UInt32) : Stands (turnBy b s) (p + b.toNat) := by
  unfold Stands at hs ⊢
  rw [toNat_turnBy]
  omega

theorem ahead_turnBy (b x y : UInt32) : ahead (turnBy b x) (turnBy b y) = ahead x y := by
  have h := (stands_toNat x).ahead_emod (stands_toNat y)
  have hturn := ((stands_toNat x).turnBy b).ahead_emod ((stands_toNat y).turnBy b)
  rw [add_sub_add_right_eq_sub, ← h] at hturn
  exact_mod_cast hturn

/-- The turning by `b`. -/
def turn (b : UInt32) : Turning := ⟨turnBy b, turnBy_injective b, ahead_turnBy b⟩

end Ghostframe.Serial
