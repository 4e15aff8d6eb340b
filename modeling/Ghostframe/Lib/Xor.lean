import Ghostframe.Lib.Bytes

/-!
# XOR parity of byte strings of unequal length

Byte strings are aligned at their last byte, the shorter ones padded with zeros
on the left. `tailByte xs i` is the byte at distance `i` from the end, zero past
the beginning; two strings of one length with the same tail bytes are equal.

* `drop_xor_eq`: the parity of a group together with all of its members but one
  determines the missing member, once its length is known.
-/

namespace Ghostframe

open List UInt8

/-! ### XOR of a list of bytes -/

/-- The XOR of a list of bytes. -/
def xorAll (bs : List UInt8) : UInt8 := bs.foldr (· ^^^ ·) 0

@[simp] theorem xorAll_nil : xorAll [] = 0 := rfl

@[simp] theorem xorAll_cons (b : UInt8) (bs : List UInt8) : xorAll (b :: bs) = b ^^^ xorAll bs :=
  rfl

theorem xorAll_perm {bs bs' : List UInt8} (h : bs.Perm bs') : xorAll bs = xorAll bs' := by
  induction h with
  | nil => rfl
  | cons b _ ih => rw [xorAll_cons, xorAll_cons, ih]
  | swap b c bs =>
    simp only [xorAll_cons]
    rw [← xor_assoc, xor_comm c b, xor_assoc]
  | trans _ _ ih1 ih2 => exact ih1.trans ih2

/-! ### Bytes counted from the end -/

/-- The byte at distance `i` from the end, zero past the beginning. -/
def tailByte (xs : Bytes) (i : ℕ) : UInt8 := xs.reverse.getD i 0

@[simp] theorem tailByte_replicate (n i : ℕ) : tailByte (List.replicate n 0) i = 0 := by
  rw [tailByte, reverse_replicate, getD_eq_getElem?_getD, getElem?_replicate]
  split_ifs <;> rfl

theorem eq_of_tailByte {xs ys : Bytes} (hlen : xs.length = ys.length)
    (h : ∀ i < xs.length, tailByte xs i = tailByte ys i) : xs = ys := by
  rw [← reverse_inj]
  refine ext_getElem (by simpa using hlen) fun i h1 h2 => ?_
  have hi := h i (by simpa using h1)
  rwa [tailByte, tailByte, getD_eq_getElem _ _ h1, getD_eq_getElem _ _ h2] at hi

/-- Cutting bytes off the front does not move the ones that stay. -/
theorem tailByte_drop {xs : Bytes} {n i : ℕ} (h : i < xs.length - n) :
    tailByte (xs.drop n) i = tailByte xs i := by
  have hle : i < (xs.drop n).reverse.length := by simpa using h
  have hle' : i < xs.reverse.length := by
    simp only [length_reverse]
    omega
  rw [tailByte, tailByte, getD_eq_getElem _ _ hle, getD_eq_getElem _ _ hle']
  simp only [getElem_reverse, getElem_drop]
  congr 1
  simp only [length_drop]
  omega

/-! ### Aligned XOR -/

/-- XOR `src` into the last bytes of `out`. -/
def xorInto (out src : Bytes) : Bytes :=
  let pad := out.length - src.length
  out.take pad ++ List.zipWith (· ^^^ ·) (out.drop pad) src

theorem length_xorInto {out src : Bytes} (h : src.length ≤ out.length) :
    (xorInto out src).length = out.length := by
  simp only [xorInto, length_append, length_take, length_zipWith, length_drop]
  omega

theorem tailByte_xorInto {out src : Bytes} (h : src.length ≤ out.length) (i : ℕ) :
    tailByte (xorInto out src) i = tailByte out i ^^^ tailByte src i := by
  obtain ⟨init, tail, rfl, hlen⟩ : ∃ init tail, out = init ++ tail ∧ tail.length = src.length :=
    ⟨_, _, (take_append_drop (out.length - src.length) out).symm, by rw [length_drop]; omega⟩
  have hxor : xorInto (init ++ tail) src = init ++ zipWith (· ^^^ ·) tail src := by
    simp [xorInto, hlen]
  simp only [tailByte, hxor, reverse_append, reverse_zipWith hlen, getD_eq_getElem?_getD,
    getElem?_append, length_zipWith, length_reverse, hlen, min_self]
  split_ifs with hi
  · rw [getElem?_eq_getElem (by simpa [hlen] using hi),
      getElem?_eq_getElem (by simpa [hlen] using hi), getElem?_eq_getElem (by simpa using hi)]
    simp
  · -- past the shorter string only the bytes of `out` remain
    rw [getElem?_eq_none (l := src.reverse) (by simpa using hi)]
    simp

/-- XOR several strings into `out`. -/
def xorAllInto (out : Bytes) (srcs : List Bytes) : Bytes := srcs.foldl xorInto out

variable {srcs : List Bytes}

theorem length_xorAllInto {out : Bytes}
    (h : ∀ s ∈ srcs, s.length ≤ out.length) : (xorAllInto out srcs).length = out.length := by
  induction srcs generalizing out with
  | nil => rfl
  | cons s srcs ih =>
    have hs : (xorInto out s).length = out.length := length_xorInto (h s mem_cons_self)
    have hle : ∀ t ∈ srcs, t.length ≤ (xorInto out s).length := fun t ht => by
      rw [hs]
      exact h t (mem_cons_of_mem _ ht)
    exact (ih hle).trans hs

theorem tailByte_xorAllInto {out : Bytes}
    (h : ∀ s ∈ srcs, s.length ≤ out.length) (i : ℕ) :
    tailByte (xorAllInto out srcs) i =
      tailByte out i ^^^ xorAll (srcs.map fun s => tailByte s i) := by
  induction srcs generalizing out with
  | nil => simp [xorAllInto]
  | cons s srcs ih =>
    have hs : s.length ≤ out.length := h s mem_cons_self
    have hle : ∀ t ∈ srcs, t.length ≤ (xorInto out s).length := fun t ht => by
      rw [length_xorInto hs]
      exact h t (mem_cons_of_mem _ ht)
    rw [map_cons, xorAll_cons, ← xor_assoc, ← tailByte_xorInto hs]
    exact ih hle

/-! ### Parity -/

/-- The longest length of a list of strings. -/
def maxLength (srcs : List Bytes) : ℕ := (srcs.map List.length).foldr max 0

theorem length_le_maxLength {s : Bytes} (h : s ∈ srcs) :
    s.length ≤ maxLength srcs := by
  induction srcs with
  | nil => simp at h
  | cons t srcs ih =>
    rcases mem_cons.1 h with rfl | h
    · exact le_max_left _ _
    · exact (ih h).trans (le_max_right _ _)

theorem exists_length_eq_maxLength (h : srcs ≠ []) :
    ∃ s ∈ srcs, s.length = maxLength srcs := by
  induction srcs with
  | nil => exact absurd rfl h
  | cons t srcs ih =>
    rcases eq_or_ne srcs [] with rfl | hne
    · exact ⟨t, mem_cons_self, (max_eq_left (Nat.zero_le _)).symm⟩
    · obtain ⟨s, hs, hlen⟩ := ih hne
      rcases le_total t.length (maxLength srcs) with hle | hle
      · exact ⟨s, mem_cons_of_mem _ hs, hlen.trans (max_eq_right hle).symm⟩
      · exact ⟨t, mem_cons_self, (max_eq_left hle).symm⟩

/-- The XOR of all the strings, left-padded to the longest. -/
def xorPayloads (srcs : List Bytes) : Bytes :=
  xorAllInto (List.replicate (maxLength srcs) 0) srcs

theorem length_xorPayloads (srcs : List Bytes) : (xorPayloads srcs).length = maxLength srcs := by
  rw [xorPayloads, length_xorAllInto, length_replicate]
  intro s hs
  rw [length_replicate]
  exact length_le_maxLength hs

theorem tailByte_xorPayloads (srcs : List Bytes) (i : ℕ) :
    tailByte (xorPayloads srcs) i = xorAll (srcs.map fun s => tailByte s i) := by
  rw [xorPayloads, tailByte_xorAllInto, tailByte_replicate, zero_xor]
  intro s hs
  rw [length_replicate]
  exact length_le_maxLength hs

/-- The parity of a group, XORed into zeros of at least its length. -/
theorem xorInto_zeros {group : List Bytes} {n : ℕ} (hparity : maxLength group ≤ n) :
    (xorInto (List.replicate n 0) (xorPayloads group)).length = n ∧
      ∀ i, tailByte (xorInto (List.replicate n 0) (xorPayloads group)) i =
        xorAll (group.map fun s => tailByte s i) := by
  have hpar : (xorPayloads group).length ≤ (replicate n (0 : UInt8)).length := by
    rw [length_xorPayloads, length_replicate]
    exact hparity
  refine ⟨by rw [length_xorInto hpar, length_replicate], fun i => ?_⟩
  rw [tailByte_xorInto hpar, tailByte_replicate, zero_xor, tailByte_xorPayloads]

theorem length_xor_rest {group rest : List Bytes} {n : ℕ} (hparity : maxLength group ≤ n)
    (hrest : ∀ s ∈ rest, s.length ≤ n) :
    (xorAllInto (xorInto (List.replicate n 0) (xorPayloads group)) rest).length = n := by
  have hlen := (xorInto_zeros hparity).1
  rw [length_xorAllInto fun s hs => (hrest s hs).trans_eq hlen.symm, hlen]

/-- **Parity recovers one missing member.** XOR the parity of a group and all its members but
`missing` into zeros of at least their length: the last `missing.length` bytes are `missing`. -/
theorem drop_xor_eq {group rest : List Bytes} {missing : Bytes}
    (hperm : group.Perm (missing :: rest)) {n : ℕ} (hparity : maxLength group ≤ n) :
    (xorAllInto (xorInto (List.replicate n 0) (xorPayloads group)) rest).drop
      (n - missing.length) = missing := by
  obtain ⟨hpar, hbytes⟩ := xorInto_zeros hparity
  have hmem : ∀ s ∈ missing :: rest, s.length ≤ n := fun s hs =>
    (length_le_maxLength (hperm.mem_iff.2 hs)).trans hparity
  have hrest : ∀ s ∈ rest, s.length ≤ n := fun s hs => hmem s (mem_cons_of_mem _ hs)
  have hmiss : missing.length ≤ n := hmem missing mem_cons_self
  have hlen := length_xor_rest hparity hrest
  refine eq_of_tailByte ?_ fun i hi => ?_
  · rw [length_drop, hlen]
    omega
  · rw [length_drop, hlen] at hi
    rw [tailByte_drop (by omega), tailByte_xorAllInto fun s hs => (hrest s hs).trans_eq hpar.symm,
      hbytes, xorAll_perm (hperm.map fun s => tailByte s i), map_cons, xorAll_cons, xor_assoc,
      UInt8.xor_self, UInt8.xor_zero]

end Ghostframe
