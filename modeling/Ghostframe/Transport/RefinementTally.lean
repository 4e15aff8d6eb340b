import Ghostframe.Transport.Scheduler

/-!
# The tally of tiles with queued refinement work

`RefinementDeficit` counts the queued refinement passes of each tile and the tiles
that have any. Its abstract content is the list of tiles of the queue entries:

* `Counts d tiles`: the tally is that of the list `tiles`, in whatever order;
* `Counts.push`, `Counts.pop`: the two updates keep it so, and a pop of a listed
  tile subtracts from positive counts only.
-/

namespace Ghostframe.Transport

open List

namespace RefinementDeficit

variable {d : RefinementDeficit} {x y x' y' : UInt8} {i : ℕ} {tiles : List (UInt8 × UInt8)}

/-- The cell of a tile lies below the end of the tally. -/
theorem index_eq_some_iff :
    d.index x y = some i ↔
      x.toNat < d.cols ∧ i < d.perTile.length ∧ i = y.toNat * d.cols + x.toNat := by
  unfold index
  by_cases hx : d.cols ≤ x.toNat
  · simp [hx]
  · by_cases hi : y.toNat * d.cols + x.toNat < d.perTile.length
    · simp only [hx, if_false, hi, if_true, Option.some.injEq]
      constructor
      · rintro rfl
        exact ⟨by omega, hi, rfl⟩
      · rintro ⟨-, -, rfl⟩
        rfl
    · simp only [hx, if_false, hi, reduceCtorEq, false_iff]
      rintro ⟨-, hlt, rfl⟩
      exact hi hlt

theorem index_inj (h : d.index x y = some i) (h' : d.index x' y' = some i) :
    (x, y) = (x', y') := by
  obtain ⟨hx, -, rfl⟩ := index_eq_some_iff.1 h
  obtain ⟨hx', -, he⟩ := index_eq_some_iff.1 h'
  obtain ⟨rfl, rfl⟩ := SlotMap.rowMajor_inj hx' hx he
  rfl

/-- Two tallies of one grid. -/
def SameGrid (d d' : RefinementDeficit) : Prop :=
  d.cols = d'.cols ∧ d.perTile.length = d'.perTile.length

theorem SameGrid.index {d d' : RefinementDeficit} (h : SameGrid d d') (x y : UInt8) :
    d.index x y = d'.index x y := by
  unfold RefinementDeficit.index
  rw [h.1, h.2]

theorem sameGrid_push (d : RefinementDeficit) (x y : UInt8) : SameGrid (d.push x y) d := by
  unfold push
  split
  · exact ⟨rfl, rfl⟩
  · exact ⟨rfl, length_modify _ _ _⟩

theorem sameGrid_pop (d : RefinementDeficit) (x y : UInt8) : SameGrid (d.pop x y) d := by
  unfold pop
  split
  · exact ⟨rfl, rfl⟩
  · split
    · exact ⟨rfl, rfl⟩
    · exact ⟨rfl, length_modify _ _ _⟩

/-- The tally of a list of tiles, all of the grid. -/
structure Counts (d : RefinementDeficit) (tiles : List (UInt8 × UInt8)) : Prop where
  indexed : ∀ t ∈ tiles, ∃ i, d.index t.1 t.2 = some i
  perTile : ∀ t i, d.index t.1 t.2 = some i → d.perTile.getD i 0 = tiles.count t
  tiles : d.tiles = tiles.toFinset.card

/-- A pop of this tile subtracts from positive counts only. -/
def PopExact (d : RefinementDeficit) (x y : UInt8) : Prop :=
  ∀ i, d.index x y = some i → 0 < d.perTile.getD i 0 ∧ (d.perTile.getD i 0 = 1 → 0 < d.tiles)

theorem Counts.perm {tiles' : List (UInt8 × UInt8)} (h : d.Counts tiles) (hp : tiles.Perm tiles') :
    d.Counts tiles' where
  indexed := fun t ht => h.indexed t (hp.mem_iff.2 ht)
  perTile := fun t i hi => (h.perTile t i hi).trans (hp.count_eq t)
  tiles := by rw [h.tiles, toFinset_eq_of_perm _ _ hp]

theorem getD_modify (l : List ℕ) (f : ℕ → ℕ) (i j : ℕ) (hi : i < l.length) :
    (l.modify i f).getD j 0 = if j = i then f (l.getD i 0) else l.getD j 0 := by
  by_cases hj : j = i
  · subst hj
    simp [getD_eq_getElem?_getD, hi]
  · rw [if_neg hj]
    simp [getD_eq_getElem?_getD, Ne.symm hj]

theorem count_cons_of_index {t u : UInt8 × UInt8} {j : ℕ} (ht : d.index t.1 t.2 = some i)
    (hu : d.index u.1 u.2 = some j) (tiles : List (UInt8 × UInt8)) :
    (t :: tiles).count u = tiles.count u + if j = i then 1 else 0 := by
  by_cases hj : j = i
  · obtain rfl : t = u := index_inj ht (hj ▸ hu)
    simp [hj]
  · have hne : t ≠ u := by
      rintro rfl
      exact hj (Option.some.inj (hu.symm.trans ht))
    rw [count_cons_of_ne hne, if_neg hj, add_zero]

theorem card_cons (t : UInt8 × UInt8) (tiles : List (UInt8 × UInt8)) :
    (t :: tiles).toFinset.card = tiles.toFinset.card + if tiles.count t = 0 then 1 else 0 := by
  rw [toFinset_cons]
  by_cases hmem : t ∈ tiles
  · rw [Finset.insert_eq_of_mem (mem_toFinset.2 hmem),
      if_neg (by simpa [count_eq_zero] using hmem), add_zero]
  · rw [Finset.card_insert_of_notMem (by simpa using hmem),
      if_pos (count_eq_zero.2 hmem)]

/-- **A push lists one more pass of its tile.** -/
theorem Counts.push (h : d.Counts tiles) (hi : d.index x y = some i) :
    (d.push x y).Counts ((x, y) :: tiles) := by
  have hlt : i < d.perTile.length := (index_eq_some_iff.1 hi).2.1
  have hold : d.perTile.getD i 0 = tiles.count (x, y) := h.perTile (x, y) i hi
  have hpush : d.push x y =
      { d with
        tiles := if d.perTile.getD i 0 = 0 then d.tiles + 1 else d.tiles
        perTile := d.perTile.modify i (· + 1) } := by
    unfold RefinementDeficit.push
    rw [hi]
  have hindex := (sameGrid_push d x y).index
  refine ⟨?_, ?_, ?_⟩
  · intro t ht
    rw [hindex]
    rcases mem_cons.1 ht with rfl | ht
    · exact ⟨i, hi⟩
    · exact h.indexed t ht
  · intro t j hj
    rw [hindex] at hj
    rw [hpush, count_cons_of_index hi hj]
    simp only [getD_modify _ _ _ _ hlt]
    split
    · rename_i hji
      rw [← h.perTile t j hj, hji]
    · rw [h.perTile t j hj, add_zero]
  · rw [hpush, card_cons, ← h.tiles, ← hold]
    split <;> rfl

/-- **A pop takes one pass of a listed tile out, from positive counts.** -/
theorem Counts.pop (h : d.Counts ((x, y) :: tiles)) :
    d.PopExact x y ∧ (d.pop x y).Counts tiles := by
  obtain ⟨i, hi⟩ := h.indexed (x, y) mem_cons_self
  have hlt : i < d.perTile.length := (index_eq_some_iff.1 hi).2.1
  have hold : d.perTile.getD i 0 = tiles.count (x, y) + 1 := by
    rw [h.perTile (x, y) i hi, count_cons_self]
  have htiles := h.tiles
  rw [card_cons] at htiles
  have hpop : d.pop x y =
      { d with
        tiles := if d.perTile.getD i 0 = 1 then d.tiles - 1 else d.tiles
        perTile := d.perTile.modify i (· - 1) } := by
    unfold RefinementDeficit.pop
    rw [hi]
    exact if_neg (by omega)
  have hindex := (sameGrid_pop d x y).index
  refine ⟨?_, ?_, ?_, ?_⟩
  · intro j hj
    obtain rfl : i = j := Option.some.inj (hi.symm.trans hj)
    refine ⟨by omega, fun hone => ?_⟩
    rw [if_pos (by omega)] at htiles
    omega
  · intro t ht
    rw [hindex]
    exact h.indexed t (mem_cons_of_mem _ ht)
  · intro t j hj
    rw [hindex] at hj
    have hcount := h.perTile t j hj
    rw [count_cons_of_index hi hj] at hcount
    rw [hpop]
    simp only [getD_modify _ _ _ _ hlt]
    split
    · rename_i hji
      rw [if_pos hji] at hcount
      rw [← hji]
      omega
    · rename_i hji
      rwa [if_neg hji] at hcount
  · rw [hpop]
    simp only
    split
    · rw [if_pos (by omega)] at htiles
      omega
    · rw [if_neg (by omega)] at htiles
      exact htiles

theorem counts_new (cols rows : ℕ) : (new cols rows).Counts [] where
  indexed := nofun
  perTile := by
    intro t i _
    simp [new, getD_eq_getElem?_getD, getElem?_replicate]
    split <;> rfl
  tiles := rfl

end RefinementDeficit

end Ghostframe.Transport
