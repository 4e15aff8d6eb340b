import Mathlib

/-!
# Pieces collected into slots

A sequence of pieces arrives piece by piece, in any order and with repetitions,
into one slot per piece. What has been collected is a function of the set of
indices that arrived:

* `slots pieces S`: the slots when the indices of `S` have arrived;
* `slots_insert`: storing a piece in its slot adds its index to the set;
* `filterMap_slots`: all indices together give the pieces back, in order;
* `heldLength`: the total length collected, which never exceeds that of the whole.
-/

namespace Ghostframe

open Finset List

variable {α : Type*}

/-- The slots when the pieces with indices in `S` have arrived. -/
def slots (pieces : List α) (S : Finset ℕ) : List (Option α) :=
  pieces.mapIdx fun i p => if i ∈ S then some p else none

variable (pieces : List α) (S : Finset ℕ)

@[simp] theorem length_slots :
    (slots pieces S).length = pieces.length := by
  simp [slots]

theorem getElem?_slots (i : ℕ) :
    (slots pieces S)[i]? = pieces[i]?.map fun p => if i ∈ S then some p else none := by
  rw [slots, getElem?_mapIdx]

/-- Nothing has arrived. -/
theorem slots_empty :
    slots pieces ∅ = List.replicate pieces.length none := by
  apply ext_getElem?
  intro i
  rw [getElem?_slots, getElem?_replicate]
  by_cases hi : i < pieces.length
  · rw [if_pos hi, getElem?_eq_getElem hi]
    simp
  · rw [if_neg hi, getElem?_eq_none (by omega)]
    rfl

theorem getElem?_slots_eq_none_iff {pieces : List α} {i : ℕ} {p : α}
    (hp : pieces[i]? = some p) : (slots pieces S)[i]? = some none ↔ i ∉ S := by
  rw [getElem?_slots, hp]
  by_cases hi : i ∈ S <;> simp [hi]

/-- **Storing a piece in its slot adds its index to what has arrived.** -/
theorem slots_insert {pieces : List α} {i : ℕ} {p : α} (hp : pieces[i]? = some p) :
    (slots pieces S).set i (some p) = slots pieces (insert i S) := by
  have hi : i < pieces.length := (List.getElem?_eq_some_iff.1 hp).1
  apply ext_getElem?
  intro j
  rw [getElem?_set, getElem?_slots, getElem?_slots, length_slots]
  by_cases hij : i = j
  · subst hij
    rw [if_pos rfl, if_pos hi, hp]
    simp
  · rw [if_neg hij]
    have hmem : j ∈ insert i S ↔ j ∈ S := by
      rw [mem_insert]
      exact ⟨fun h => h.resolve_left (Ne.symm hij), Or.inr⟩
    simp only [hmem]

/-- When every index has arrived, the slots hold the pieces in order. -/
theorem filterMap_slots :
    (slots pieces (Finset.range pieces.length)).filterMap id = pieces := by
  have hall : slots pieces (range pieces.length) = pieces.map some := by
    apply ext_getElem?
    intro i
    rw [getElem?_slots, getElem?_map]
    by_cases hi : i < pieces.length
    · simp [hi]
    · rw [getElem?_eq_none (by omega)]
      rfl
  rw [hall, filterMap_map]
  simp

/-! ### How much has been collected -/

/-- The total length of the pieces that have arrived. -/
def heldLength (pieces : List (List α)) (S : Finset ℕ) : ℕ :=
  ∑ i ∈ S, (pieces.getD i []).length

theorem heldLength_insert {pieces : List (List α)} {i : ℕ} {p : List α} {S : Finset ℕ}
    (hp : pieces[i]? = some p) (hi : i ∉ S) :
    heldLength pieces (insert i S) = heldLength pieces S + p.length := by
  rw [heldLength, sum_insert hi, getD_eq_getElem?_getD, hp, Nat.add_comm]
  rfl

theorem heldLength_range (pieces : List (List α)) :
    heldLength pieces (Finset.range pieces.length) = pieces.flatten.length := by
  unfold heldLength
  induction pieces with
  | nil => rfl
  | cons p pieces ih =>
    rw [List.length_cons, Finset.sum_range_succ', List.flatten_cons, List.length_append]
    simp only [getD_cons_succ, getD_cons_zero]
    rw [ih, Nat.add_comm]

theorem heldLength_le {pieces : List (List α)} {S : Finset ℕ}
    (hS : S ⊆ Finset.range pieces.length) : heldLength pieces S ≤ pieces.flatten.length := by
  rw [← heldLength_range]
  exact sum_le_sum_of_subset hS

end Ghostframe
