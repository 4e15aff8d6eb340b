import Ghostframe.Lib.Dict

/-!
# Sums over the values of a finite map

`sumOf f m` adds `f v` over the values `v` stored in `m`.

* `sumOf_erase`, `sumOf_insert`: what one operation changes;
* `sumOf_congr`: maps that agree where `f` is not zero have the same sum;
* `le_sumOf`: one value is at most the sum.
-/

namespace Ghostframe.Dict

variable {κ ν : Type*} [DecidableEq κ]

/-- What the key `k` adds to the sum. -/
def valueAt (f : ν → ℕ) (m : Dict κ ν) (k : κ) : ℕ := (m.get? k).elim 0 f

/-- The sum of `f` over the stored values. -/
def sumOf (f : ν → ℕ) (m : Dict κ ν) : ℕ := ∑ k ∈ m.keys.toFinset, m.valueAt f k

variable (f : ν → ℕ) (m : Dict κ ν) {k : κ}

theorem valueAt_of_get? {v : ν} (h : m.get? k = some v) : m.valueAt f k = f v := by
  rw [valueAt, h, Option.elim_some]

theorem valueAt_of_get?_eq_none (h : m.get? k = none) : m.valueAt f k = 0 := by
  rw [valueAt, h, Option.elim_none]

@[simp] theorem sumOf_empty : (empty : Dict κ ν).sumOf f = 0 := by
  simp [sumOf]

theorem sumOf_eq_sum {s : Finset κ} (hs : m.keys.toFinset ⊆ s) :
    m.sumOf f = ∑ k ∈ s, m.valueAt f k := by
  refine Finset.sum_subset hs fun k _ hk => ?_
  rw [List.mem_toFinset] at hk
  exact m.valueAt_of_get?_eq_none f ((m.get?_eq_none_iff k).2 hk)

theorem sumOf_congr {m m' : Dict κ ν} (h : ∀ k, m'.valueAt f k = m.valueAt f k) :
    m'.sumOf f = m.sumOf f := by
  have hleft : m'.keys.toFinset ⊆ m'.keys.toFinset ∪ m.keys.toFinset := Finset.subset_union_left
  have hright : m.keys.toFinset ⊆ m'.keys.toFinset ∪ m.keys.toFinset := Finset.subset_union_right
  rw [m'.sumOf_eq_sum f hleft, m.sumOf_eq_sum f hright]
  exact Finset.sum_congr rfl fun k _ => h k

theorem valueAt_erase_ne {k k' : κ} (h : k' ≠ k) : (m.erase k).valueAt f k' = m.valueAt f k' := by
  rw [valueAt, m.get?_erase_ne h, valueAt]

theorem valueAt_insert_ne {k k' : κ} (v : ν) (h : k' ≠ k) :
    (m.insert k v).valueAt f k' = m.valueAt f k' := by
  rw [valueAt, m.get?_insert_ne v h, valueAt]

/-- Removing an entry takes its value from the sum. -/
theorem sumOf_erase {m : Dict κ ν} {v : ν} (h : m.get? k = some v) :
    m.sumOf f = f v + (m.erase k).sumOf f := by
  have hk : k ∈ m.keys.toFinset := List.mem_toFinset.2 (mem_keys_of_get? h)
  have hsub : (m.erase k).keys.toFinset ⊆ m.keys.toFinset.erase k := by
    intro k' hk'
    obtain ⟨v', hv'⟩ := ((m.erase k).mem_keys_iff k').1 (List.mem_toFinset.1 hk')
    obtain ⟨hne, hget⟩ := get?_of_get?_erase hv'
    exact Finset.mem_erase.2 ⟨hne, List.mem_toFinset.2 (mem_keys_of_get? hget)⟩
  rw [(m.erase k).sumOf_eq_sum f hsub, sumOf, ← Finset.add_sum_erase _ _ hk,
    m.valueAt_of_get? f h]
  congr 1
  refine Finset.sum_congr rfl fun k' hk' => ?_
  exact (m.valueAt_erase_ne f (Finset.ne_of_mem_erase hk')).symm

theorem sumOf_erase_of_get?_eq_none {m : Dict κ ν} (h : m.get? k = none) :
    (m.erase k).sumOf f = m.sumOf f := by
  refine sumOf_congr f fun k' => ?_
  by_cases hk : k' = k
  · rw [hk, valueAt_of_get?_eq_none _ _ h, valueAt_of_get?_eq_none _ _ (m.get?_erase_self k)]
  · exact m.valueAt_erase_ne f hk

/-- Storing a value adds it to what is left without the key. -/
theorem sumOf_insert (k : κ) (v : ν) :
    (m.insert k v).sumOf f = f v + (m.erase k).sumOf f := by
  rw [sumOf_erase f (m.get?_insert_self k v)]
  congr 1
  refine sumOf_congr f fun k' => ?_
  by_cases hk : k' = k
  · rw [hk, valueAt_of_get?_eq_none _ _ (get?_erase_self _ _),
      valueAt_of_get?_eq_none _ _ (get?_erase_self _ _)]
  · rw [valueAt_erase_ne _ _ hk, valueAt_insert_ne _ _ _ hk, valueAt_erase_ne _ _ hk]

theorem le_sumOf {m : Dict κ ν} {v : ν} (h : m.get? k = some v) : f v ≤ m.sumOf f := by
  rw [sumOf_erase f h]
  exact Nat.le_add_right _ _

end Ghostframe.Dict
