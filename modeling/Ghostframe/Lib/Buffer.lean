import Mathlib

/-!
# In-place loops over an indexed buffer

A buffer is a function from indices to values, written with `Function.update`.

* `lift is δ buf`: the loop that adds `δ` to every entry of `is` in turn;
* `ReadsOutside is δ`: `δ` reads no entry the loop writes, so that the order of
  the loop does not matter (`lift_apply`) and the loop that subtracts `δ` undoes
  it (`lift_neg_lift`);
* `scatter ps vs buf`: the loop that writes the values `vs` to the places `ps`
  (`scatter_map`: what is gathered from `ps` is put back).
-/

namespace Ghostframe

open List

variable {ι α : Type*} [DecidableEq ι]

/-! ### Lifting -/

section Lift

variable [AddGroup α]

/-- Add `δ` to the entries `is`, one after the other, in place. -/
def lift (is : List ι) (δ : (ι → α) → ι → α) (buf : ι → α) : ι → α :=
  is.foldl (fun b i => Function.update b i (b i + δ b i)) buf

/-- What `δ` adds to an entry of `is` depends only on the entries outside `is`. -/
def ReadsOutside (is : List ι) (δ : (ι → α) → ι → α) : Prop :=
  ∀ b b' : ι → α, (∀ j, j ∉ is → b j = b' j) → ∀ i ∈ is, δ b i = δ b' i

variable {is : List ι} {δ : (ι → α) → ι → α}

/-- The loop over a part of `is`, from a buffer that differs from `buf` only inside `is`. -/
theorem foldl_lift_apply (hδ : ReadsOutside is δ) (buf : ι → α) (todo : List ι)
    (hnodup : todo.Nodup) (hsub : ∀ i ∈ todo, i ∈ is) (b : ι → α)
    (hb : ∀ j, j ∉ is → b j = buf j) (j : ι) :
    todo.foldl (fun b i => Function.update b i (b i + δ b i)) b j =
      if j ∈ todo then b j + δ buf j else b j := by
  induction todo generalizing b with
  | nil => simp
  | cons i todo ih =>
    have hi : i ∈ is := hsub i mem_cons_self
    obtain ⟨hnew, hnodup'⟩ := nodup_cons.1 hnodup
    have hout : ∀ j, j ∉ is → Function.update b i (b i + δ b i) j = buf j := by
      intro j hj
      have hne : j ≠ i := fun h => hj (h ▸ hi)
      rw [Function.update_of_ne hne, hb j hj]
    rw [foldl_cons,
      ih hnodup' (fun i' hi' => hsub i' (mem_cons_of_mem _ hi')) _ hout]
    by_cases hji : j = i
    · subst hji
      rw [if_neg hnew, if_pos mem_cons_self, Function.update_self, hδ b buf hb j hi]
    · rw [Function.update_of_ne hji]
      simp only [mem_cons, hji, false_or]

theorem lift_apply (hnodup : is.Nodup) (hδ : ReadsOutside is δ) (buf : ι → α) (j : ι) :
    lift is δ buf j = if j ∈ is then buf j + δ buf j else buf j :=
  foldl_lift_apply hδ buf is hnodup (fun _ h => h) buf (fun _ _ => rfl) j

omit [DecidableEq ι] in
theorem ReadsOutside.neg (hδ : ReadsOutside is δ) : ReadsOutside is fun b i => -δ b i := by
  intro b b' h i hi
  show -δ b i = -δ b' i
  rw [hδ b b' h i hi]

/-- **A lifting step is undone by subtracting what it added.** -/
theorem lift_neg_lift (hnodup : is.Nodup) (hδ : ReadsOutside is δ) (buf : ι → α) :
    lift is (fun b i => -δ b i) (lift is δ buf) = buf := by
  funext j
  rw [lift_apply hnodup hδ.neg, lift_apply hnodup hδ]
  split_ifs with hj
  · have hsame : δ (lift is δ buf) j = δ buf j := by
      refine hδ _ _ (fun i hi => ?_) j hj
      rw [lift_apply hnodup hδ, if_neg hi]
    rw [hsame, add_neg_cancel_right]
  · rfl

end Lift

/-! ### Scattering -/

/-- Write the values to the places, one after the other. -/
def scatter (places : List ι) (values : List α) (buf : ι → α) : ι → α :=
  (places.zip values).foldl (fun b e => Function.update b e.1 e.2) buf

/-- Values gathered from the places by `f` are put back as `f` has them. -/
theorem scatter_map (f : ι → α) (places : List ι) (buf : ι → α) (j : ι) :
    scatter places (places.map f) buf j = if j ∈ places then f j else buf j := by
  unfold scatter
  induction places generalizing buf with
  | nil => simp
  | cons i places ih =>
    rw [map_cons, zip_cons_cons, foldl_cons, ih]
    by_cases hj : j ∈ places
    · rw [if_pos hj, if_pos (mem_cons_of_mem _ hj)]
    · by_cases hji : j = i
      · subst hji
        rw [if_neg hj, if_pos mem_cons_self, Function.update_self]
      · rw [if_neg hj, if_neg (by simp [hji, hj]), Function.update_of_ne hji]

end Ghostframe
