import Mathlib

/-!
# Finite maps

`Dict κ ν` is the finite map used to model a hash map: Mathlib's association
list without duplicate keys, at a constant family of values. Nothing here
depends on the order of the entries.

* `get?`, `contains`, `insert`, `erase`, `retain`, `modify`, `keys`, `size`;
* how `get?` reads each of them (the simp set of the later modules);
* how the keys of each operation relate to the keys before it, up to
  permutation: this is what the accounting proofs count with.
-/

namespace Ghostframe

open AList List

/-- A finite map from `κ` to `ν`. -/
def Dict (κ : Type*) (ν : Type*) := AList (fun _ : κ => ν)

namespace Dict

variable {κ ν : Type*} [DecidableEq κ]

instance [DecidableEq ν] : DecidableEq (Dict κ ν) :=
  inferInstanceAs (DecidableEq (AList (fun _ : κ => ν)))

/-- The empty map. -/
def empty : Dict κ ν := (∅ : AList (fun _ : κ => ν))

variable (m : Dict κ ν)

/-- The value stored under a key. -/
def get? (k : κ) : Option ν := AList.lookup k m

/-- Is there a value under the key? -/
def contains (k : κ) : Bool := (m.get? k).isSome

/-- Store a value, replacing the one under the same key. -/
def insert (m : Dict κ ν) (k : κ) (v : ν) : Dict κ ν := AList.insert k v m

/-- Remove a key. -/
def erase (m : Dict κ ν) (k : κ) : Dict κ ν := AList.erase k m

/-- Change the value under a key, if there is one. -/
def modify (k : κ) (f : ν → ν) : Dict κ ν :=
  match m.get? k with
  | some v => m.insert k (f v)
  | none => m

/-- The stored entries, in no meaningful order. -/
def toList : List (κ × ν) := m.entries.map fun e => (e.1, e.2)

omit [DecidableEq κ] in
private theorem nodupKeys_filter (l : List (Sigma fun _ : κ => ν)) (p : κ → ν → Bool)
    (h : l.NodupKeys) : (l.filter fun e => p e.1 e.2).NodupKeys :=
  List.NodupKeys.sublist filter_sublist h

/-- Keep the entries that satisfy `p`. -/
def retain (p : κ → ν → Bool) : Dict κ ν :=
  ⟨m.entries.filter fun e => p e.1 e.2, nodupKeys_filter m.entries p m.nodupKeys⟩

/-- The keys. -/
def keys (m : Dict κ ν) : List κ := AList.keys m

/-- The number of entries. -/
def size : ℕ := m.keys.length

/-! ### Reading -/

variable (m : Dict κ ν) (k : κ) {k' : κ} (v : ν)

@[simp] theorem get?_empty : (empty : Dict κ ν).get? k = none := lookup_empty k

@[simp] theorem get?_insert_self : (m.insert k v).get? k = some v :=
  lookup_insert m

theorem get?_insert_ne {k : κ} (h : k' ≠ k) : (m.insert k v).get? k' = m.get? k' :=
  lookup_insert_ne h

theorem get?_insert (k' : κ) (v : ν) :
    (m.insert k v).get? k' = if k' = k then some v else m.get? k' := by
  split_ifs with h
  · rw [h, get?_insert_self]
  · exact m.get?_insert_ne v h

theorem get?_insert_cases {m : Dict κ ν} {k j : κ} {v w : ν} (h : (m.insert k v).get? j = some w) :
    j = k ∧ w = v ∨ j ≠ k ∧ m.get? j = some w := by
  rw [get?_insert] at h
  split_ifs at h with hj
  · exact .inl ⟨hj, (Option.some.inj h).symm⟩
  · exact .inr ⟨hj, h⟩

@[simp] theorem get?_erase_self : (m.erase k).get? k = none :=
  lookup_erase k m

theorem get?_erase_ne {k : κ} (h : k' ≠ k) : (m.erase k).get? k' = m.get? k' :=
  lookup_erase_ne h

theorem get?_erase (k' : κ) : (m.erase k).get? k' = if k' = k then none else m.get? k' := by
  split_ifs with h
  · rw [h, get?_erase_self]
  · exact m.get?_erase_ne h

theorem get?_of_get?_erase {m : Dict κ ν} {k : κ} {v : ν} (h : (m.erase k).get? k' = some v) :
    k' ≠ k ∧ m.get? k' = some v := by
  rw [get?_erase] at h
  split_ifs at h with hk
  exact ⟨hk, h⟩

theorem get?_modify (k' : κ) (f : ν → ν) :
    (m.modify k f).get? k' = if k' = k then (m.get? k).map f else m.get? k' := by
  unfold modify
  cases h : m.get? k with
  | none => split_ifs with hk <;> simp [hk, h]
  | some v => rw [get?_insert]; rfl

theorem get?_eq_some_iff : m.get? k = some v ↔ (⟨k, v⟩ : Sigma fun _ : κ => ν) ∈ m.entries :=
  mem_lookup_iff

theorem mem_toList_iff : (k, v) ∈ m.toList ↔ m.get? k = some v := by
  simp [toList, get?_eq_some_iff]

theorem get?_retain_eq_some (p : κ → ν → Bool) (k : κ) (v : ν) :
    (m.retain p).get? k = some v ↔ m.get? k = some v ∧ p k v = true := by
  rw [get?_eq_some_iff, get?_eq_some_iff]
  simp [retain]

theorem get?_retain (p : κ → ν → Bool) (k : κ) : (m.retain p).get? k = (m.get? k).filter (p k) := by
  ext v
  rw [get?_retain_eq_some, Option.filter_eq_some_iff]

@[simp] theorem contains_eq_true_iff : m.contains k = true ↔ ∃ v, m.get? k = some v := by
  simp [contains, Option.isSome_iff_exists]

/-! ### Keys -/

theorem mem_keys_iff : k ∈ m.keys ↔ ∃ v, m.get? k = some v := by
  rw [← Option.isSome_iff_exists]
  exact (lookup_isSome (s := m)).symm

theorem mem_keys_of_get? {m : Dict κ ν} {k : κ} {v : ν} (h : m.get? k = some v) : k ∈ m.keys :=
  (m.mem_keys_iff k).2 ⟨v, h⟩

theorem get?_eq_none_iff : m.get? k = none ↔ k ∉ m.keys :=
  lookup_eq_none

omit [DecidableEq κ] in
theorem nodup_keys : m.keys.Nodup := keys_nodup m

omit [DecidableEq κ] in
theorem nodup_filter_toList (p : κ × ν → Bool) : ((m.toList.filter p).map Prod.fst).Nodup := by
  have hkeys : m.toList.map Prod.fst = m.keys := by
    simp [toList, keys, AList.keys, List.keys, Function.comp_def]
  have hsub : ((m.toList.filter p).map Prod.fst).Sublist (m.toList.map Prod.fst) :=
    List.filter_sublist.map _
  exact hsub.nodup (hkeys ▸ m.nodup_keys)

omit [DecidableEq κ] in
theorem nodup_fst_toList : (m.toList.map Prod.fst).Nodup := by
  have h := m.nodup_filter_toList fun _ => true
  rwa [filter_true] at h

omit [DecidableEq κ] in
@[simp] theorem keys_empty : (empty : Dict κ ν).keys = [] := rfl

theorem keys_erase : (m.erase k).keys = m.keys.erase k :=
  AList.keys_erase k m

theorem keys_insert : (m.insert k v).keys = k :: m.keys.erase k :=
  AList.keys_insert m

theorem keys_perm_cons_erase {m : Dict κ ν} {k : κ} {v : ν} (h : m.get? k = some v) :
    m.keys.Perm (k :: (m.erase k).keys) := by
  rw [keys_erase]
  exact perm_cons_erase (mem_keys_of_get? h)

theorem keys_insert_of_get?_eq_none {m : Dict κ ν} {k : κ} (h : m.get? k = none) :
    (m.insert k v).keys = k :: m.keys := by
  rw [keys_insert, erase_of_not_mem ((m.get?_eq_none_iff k).1 h)]

theorem keys_insert_perm {m : Dict κ ν} {k : κ} {v : ν} (v' : ν) (h : m.get? k = some v) :
    (m.insert k v').keys.Perm m.keys := by
  rw [keys_insert]
  exact (perm_cons_erase (mem_keys_of_get? h)).symm

theorem keys_erase_subperm : (m.erase k).keys.Subperm m.keys := by
  rw [keys_erase]
  exact (erase_sublist).subperm

end Dict

end Ghostframe
