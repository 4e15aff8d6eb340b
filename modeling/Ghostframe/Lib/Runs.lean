import Mathlib

/-!
# Runs of indices

A set of indices as a list of runs, each its first index and how many follow.

* `InRuns`: is an index in one of them;
* `pushIndex`: add an index after all others, to the last run or as a new one;
* `foldl_pushIndex`: collecting the indices below `n` that satisfy a predicate gives ordered
  runs of exactly those.
-/

namespace Ghostframe

open List

/-- The first index, and how many. -/
abbrev IndexRun := ℕ × ℕ

variable (runs : List IndexRun)

/-- Is the index in one of the runs? -/
def InRuns (i : ℕ) : Prop := ∃ run ∈ runs, run.1 ≤ i ∧ i < run.1 + run.2

instance (runs : List IndexRun) (i : ℕ) : Decidable (InRuns runs i) :=
  inferInstanceAs (Decidable (∃ run ∈ runs, run.1 ≤ i ∧ i < run.1 + run.2))

/-- An index joins the last run, or starts one. -/
def pushIndex (i : ℕ) : List IndexRun :=
  match runs.getLast? with
  | some last =>
    if last.1 + last.2 = i then runs.dropLast ++ [(last.1, last.2 + 1)] else runs ++ [(i, 1)]
  | none => [(i, 1)]

theorem inRuns_append {runs more : List IndexRun} {i : ℕ} :
    InRuns (runs ++ more) i ↔ InRuns runs i ∨ InRuns more i := by
  simp only [InRuns, mem_append, or_and_right, exists_or]

theorem inRuns_singleton {first count i : ℕ} :
    InRuns [(first, count)] i ↔ first ≤ i ∧ i < first + count := by
  simp [InRuns]

/-- The runs are in order and do not overlap. -/
def OrderedRuns : Prop := runs.Pairwise fun a b => a.1 + a.2 ≤ b.1

/-- An index joins the last run when it follows it, and starts one otherwise. -/
theorem pushIndex_cases (i : ℕ) :
    pushIndex runs i = runs ++ [(i, 1)] ∨
      ∃ init first count, runs = init ++ [(first, count)] ∧ first + count = i ∧
        pushIndex runs i = init ++ [(first, count + 1)] := by
  unfold pushIndex
  rcases eq_nil_or_concat runs with rfl | ⟨init, ⟨first, count⟩, rfl⟩
  · exact .inl rfl
  · simp only [concat_eq_append, getLast?_append, getLast?_singleton, Option.some_or,
      dropLast_concat]
    split_ifs with h
    · exact .inr ⟨init, first, count, rfl, h, rfl⟩
    · exact .inl rfl

theorem inRuns_pushIndex (r i : ℕ) :
    InRuns (pushIndex runs r) i ↔ InRuns runs i ∨ i = r := by
  rcases pushIndex_cases runs r with heq | ⟨init, first, count, rfl, rfl, heq⟩
  · rw [heq, inRuns_append, inRuns_singleton]
    exact or_congr_right (by omega)
  · rw [heq, inRuns_append, inRuns_append, inRuns_singleton, inRuns_singleton, or_assoc]
    exact or_congr_right (by omega)

variable {runs : List IndexRun}

theorem ordered_pushIndex {r : ℕ} (hordered : OrderedRuns runs)
    (hend : ∀ run ∈ runs, run.1 + run.2 ≤ r) :
    OrderedRuns (pushIndex runs r) ∧ ∀ run ∈ pushIndex runs r, run.1 + run.2 ≤ r + 1 := by
  rcases pushIndex_cases runs r with heq | ⟨init, first, count, rfl, rfl, heq⟩
  · rw [heq, OrderedRuns, pairwise_append, forall_mem_append]
    refine ⟨⟨hordered, pairwise_singleton _ _, by simpa using hend⟩, fun run hrun => ?_, by simp⟩
    exact (hend run hrun).trans (Nat.le_succ r)
  · obtain ⟨hinit, -, hlast⟩ := pairwise_append.1 hordered
    rw [heq, OrderedRuns, pairwise_append, forall_mem_append]
    refine ⟨⟨hinit, pairwise_singleton _ _, by simpa using hlast⟩, fun run hrun => ?_, ?_⟩
    · exact (hend run (mem_append_left _ hrun)).trans (Nat.le_succ _)
    · simp [Nat.add_assoc]

theorem pos_pushIndex (hpos : ∀ run ∈ runs, 0 < run.2) (i : ℕ) :
    ∀ run ∈ pushIndex runs i, 0 < run.2 := by
  rcases pushIndex_cases runs i with heq | ⟨init, first, count, rfl, rfl, heq⟩
  · rw [heq, forall_mem_append]
    exact ⟨hpos, by simp⟩
  · rw [heq, forall_mem_append]
    exact ⟨fun run hrun => hpos run (mem_append_left _ hrun), by simp⟩

theorem OrderedRuns.nodup (h : OrderedRuns runs)
    (hpos : ∀ run ∈ runs, 0 < run.2) : runs.Nodup := by
  refine List.Pairwise.imp_of_mem (fun {a b} ha hb hab => ?_) h
  rintro rfl
  have := hpos a ha
  omega

/-- Collecting the indices that satisfy `p` gives ordered runs of exactly those indices. -/
theorem foldl_pushIndex (p : ℕ → Bool) (n : ℕ) :
    let runs := (List.range n).foldl (fun runs r => if p r then pushIndex runs r else runs) []
    OrderedRuns runs ∧ (∀ run ∈ runs, run.1 + run.2 ≤ n) ∧
      ∀ i, InRuns runs i ↔ i < n ∧ p i = true := by
  induction n with
  | zero => simp [OrderedRuns, InRuns]
  | succ n ih =>
    obtain ⟨hordered, hend, hmem⟩ := ih
    simp only [range_succ, foldl_append, foldl_cons, foldl_nil]
    by_cases hp : p n = true
    · simp only [hp, if_true]
      obtain ⟨hordered', hend'⟩ := ordered_pushIndex hordered hend
      refine ⟨hordered', hend', fun i => ?_⟩
      rw [inRuns_pushIndex, hmem, Nat.lt_succ_iff_lt_or_eq, or_and_right]
      exact or_congr_right ⟨fun h => ⟨h, h ▸ hp⟩, And.left⟩
    · simp only [hp, Bool.false_eq_true, if_false]
      refine ⟨hordered, fun run hrun => (hend run hrun).trans (Nat.le_succ n), fun i => ?_⟩
      rw [hmem, Nat.lt_succ_iff_lt_or_eq, or_and_right]
      exact (or_iff_left (b := i = n ∧ p i = true) fun ⟨h, hi⟩ => hp (h ▸ hi)).symm

theorem nodup_foldl_pushIndex (p : ℕ → Bool) (n : ℕ) :
    ((List.range n).foldl (fun runs i => if p i then pushIndex runs i else runs) []).Nodup := by
  refine (foldl_pushIndex p n).1.nodup ?_
  induction n with
  | zero => simp
  | succ n ih =>
    simp only [range_succ, foldl_append, foldl_cons, foldl_nil]
    split_ifs
    · exact pos_pushIndex ih n
    · exact ih

end Ghostframe
