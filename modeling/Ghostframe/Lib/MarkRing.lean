import Mathlib

/-!
# A word of bits as a ring of marks

Events are numbered, and some of them are marked. A word of `w` bits remembers the
marks of the last `w` events: event `n` has bit `n % w`.

* `Marks bits last marked`: the word shows the marked events among the last `w`;
* `Marks.countP_eq`: the set bits are as many as the marked events in the window.
-/

namespace Ghostframe

open BitVec Finset Nat

variable {w : ℕ}

/-- Event `n` is one of the last `w`. -/
def InWindow (w last n : ℕ) : Prop := n ≤ last ∧ last < n + w

instance (w last n : ℕ) : Decidable (InWindow w last n) :=
  inferInstanceAs (Decidable (_ ∧ _))

/-- The word shows which of the last `w` events are marked. -/
def Marks (bits : BitVec w) (last : ℕ) (marked : Finset ℕ) : Prop :=
  ∀ i < w, bits.getLsbD i = true ↔ ∃ n ∈ marked, InWindow w last n ∧ n % w = i

theorem marks_zero (last : ℕ) : Marks (0#w) last ∅ := by
  intro i _
  simp

/-- Two events in the window have different bits. -/
theorem InWindow.eq_of_mod_eq {last n m : ℕ} (hn : InWindow w last n) (hm : InWindow w last m)
    (h : n % w = m % w) : n = m := by
  obtain ⟨hn1, hn2⟩ := hn
  obtain ⟨hm1, hm2⟩ := hm
  rcases le_total n m with hle | hle
  · have hdvd : w ∣ m - n := (modEq_iff_dvd' hle).1 h
    have hzero := eq_zero_of_dvd_of_lt hdvd (by omega)
    omega
  · have hdvd : w ∣ n - m := (modEq_iff_dvd' hle).1 h.symm
    have hzero := eq_zero_of_dvd_of_lt hdvd (by omega)
    omega

theorem getLsbD_setMark (bits : BitVec w) (i : ℕ) {k : ℕ} (hk : k < w) :
    (bits ||| (1#w <<< k)).getLsbD i = (bits.getLsbD i || decide (i = k)) := by
  rw [getLsbD_or, ← twoPow_eq, getLsbD_twoPow]
  simp [hk, eq_comm]

theorem getLsbD_clearMark (bits : BitVec w) {i k : ℕ} (hi : i < w) (hk : k < w) :
    (bits &&& ~~~(1#w <<< k)).getLsbD i = (bits.getLsbD i && decide (i ≠ k)) := by
  rw [getLsbD_and, getLsbD_not, ← twoPow_eq, getLsbD_twoPow]
  simp [hi, hk, eq_comm]

namespace Marks

variable {bits : BitVec w} {last : ℕ} {marked : Finset ℕ}

/-- The next event: its bit is cleared, whatever event it stood for. -/
theorem next (h : Marks bits last marked) (hle : ∀ n ∈ marked, n ≤ last) :
    Marks (bits &&& ~~~(1#w <<< ((last + 1) % w))) (last + 1) marked := by
  intro i hi
  have hpos : 0 < w := by omega
  rw [getLsbD_clearMark bits hi (mod_lt _ hpos), Bool.and_eq_true, decide_eq_true_eq, h i hi]
  constructor
  · rintro ⟨⟨n, hn, ⟨hn1, hn2⟩, rfl⟩, hne⟩
    refine ⟨n, hn, ⟨by omega, ?_⟩, rfl⟩
    -- only the event that falls out has the bit of the new one
    by_contra hout
    have hsame : last + 1 = n + w := by omega
    exact hne (by rw [hsame, add_mod_right])
  · rintro ⟨n, hn, ⟨-, hn2⟩, rfl⟩
    have hle' := hle n hn
    refine ⟨⟨n, hn, ⟨hle', by omega⟩, rfl⟩, fun heq => ?_⟩
    have hwin : InWindow w (last + 1) n := ⟨by omega, hn2⟩
    have := hwin.eq_of_mod_eq ⟨le_refl _, by omega⟩ heq
    omega

/-- An event of the window is marked. -/
theorem mark (h : Marks bits last marked) {n : ℕ} (hn : InWindow w last n) :
    Marks (bits ||| (1#w <<< (n % w))) last (insert n marked) := by
  intro i hi
  rw [getLsbD_setMark bits i (mod_lt _ (by omega)), Bool.or_eq_true, decide_eq_true_eq,
    h i hi]
  constructor
  · rintro (⟨m, hm, hwin, hmod⟩ | rfl)
    · exact ⟨m, mem_insert_of_mem hm, hwin, hmod⟩
    · exact ⟨n, mem_insert_self n marked, hn, rfl⟩
  · rintro ⟨m, hm, hwin, rfl⟩
    rcases mem_insert.1 hm with rfl | hm
    · exact .inr rfl
    · exact .inl ⟨m, hm, hwin, rfl⟩

/-- Marks outside the window do not show. -/
theorem insert_outside (h : Marks bits last marked) {n : ℕ} (hn : ¬ InWindow w last n) :
    Marks bits last (insert n marked) := by
  intro i hi
  rw [h i hi]
  constructor
  · rintro ⟨m, hm, hrest⟩
    exact ⟨m, mem_insert_of_mem hm, hrest⟩
  · rintro ⟨m, hm, hwin, hmod⟩
    rcases mem_insert.1 hm with rfl | hm
    · exact absurd hwin hn
    · exact ⟨m, hm, hwin, hmod⟩

/-- **One set bit for every marked event of the window.** -/
theorem countP_eq (h : Marks bits last marked) :
    (List.range w).countP (fun i => bits.getLsbD i) =
      (marked.filter fun n => InWindow w last n).card := by
  have hcount : (List.range w).countP (fun i => bits.getLsbD i) =
      ((range w).filter fun i => bits.getLsbD i = true).card := by
    have hdec : (fun i => bits.getLsbD i) = fun i => decide (bits.getLsbD i = true) := by
      funext i
      exact Bool.decide_eq_true.symm
    rw [List.countP_eq_length_filter, hdec]
    rfl
  rw [hcount]
  symm
  refine card_bij (fun n _ => n % w) ?_ ?_ ?_
  · intro n hn
    obtain ⟨hmem, hwin⟩ := mem_filter.1 hn
    have hlt : n % w < w := mod_lt _ (by have := hwin.1; have := hwin.2; omega)
    exact mem_filter.2 ⟨mem_range.2 hlt, (h _ hlt).2 ⟨n, hmem, hwin, rfl⟩⟩
  · intro n hn m hm heq
    exact (mem_filter.1 hn).2.eq_of_mod_eq (mem_filter.1 hm).2 heq
  · intro i hi
    obtain ⟨hlt, hbit⟩ := mem_filter.1 hi
    obtain ⟨n, hmem, hwin, hmod⟩ := (h i (mem_range.1 hlt)).1 hbit
    exact ⟨n, mem_filter.2 ⟨hmem, hwin⟩, hmod⟩

end Marks

end Ghostframe
