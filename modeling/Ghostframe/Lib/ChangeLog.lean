import Mathlib

/-!
# Copies kept up to date by a log of changes

A value is a function from places to contents, a copy of it may be old. Whoever changes
the value notes the keys it touched; the notes are sealed in generations. A copy remembers
the generation it was made at, and differs from the value only at keys noted since.

* `patch`: take over the new value inside a set (`patch_eq_at`: this repairs a copy that
  differs only there);
* `ChangeLog`: the notes, with `mark`, `advance` and `since`.
-/

namespace Ghostframe

section Differ

variable {ι α : Type*}

/-- The two values differ only inside the set. -/
def DiffersWithin (S : Set ι) (a b : ι → α) : Prop := ∀ i, a i ≠ b i → i ∈ S

theorem DiffersWithin.mono {S T : Set ι} {a b : ι → α} (h : DiffersWithin S a b) (hST : S ⊆ T) :
    DiffersWithin T a b :=
  fun i hi => hST (h i hi)

/-- Take over the new value inside the set. -/
def patch (S : ι → Bool) (new old : ι → α) : ι → α := fun i => if S i then new i else old i

/-- Patching where a copy may differ makes it the new value. -/
theorem patch_eq_at {S : ι → Bool} {new old : ι → α} {i : ι}
    (h : old i ≠ new i → S i = true) : patch S new old i = new i := by
  by_cases hi : S i = true
  · rw [patch, if_pos hi]
  · rw [patch, if_neg hi]
    by_contra hne
    exact hi (h hne)

end Differ

/-- Keys noted as changed: those of every sealed generation, and those of the one under way. -/
structure ChangeLog (κ : Type*) where
  current : Set κ
  sealed : ℕ → Set κ
  next : ℕ

namespace ChangeLog

variable {κ : Type*}

/-- Nothing noted. -/
def empty : ChangeLog κ := ⟨∅, fun _ => ∅, 0⟩

variable (l : ChangeLog κ)

/-- Note some keys. -/
def mark (keys : Set κ) : ChangeLog κ := { l with current := l.current ∪ keys }

/-- Seal the generation under way and start the next. -/
def advance : ChangeLog κ :=
  ⟨∅, Function.update l.sealed l.next l.current, l.next + 1⟩

theorem advance_sealed_of_lt {l : ChangeLog κ} {n : ℕ} (h : n < l.next) :
    l.advance.sealed n = l.sealed n :=
  Function.update_of_ne h.ne ..

theorem advance_sealed_next : l.advance.sealed l.next = l.current :=
  Function.update_self ..

/-- The keys of the generations sealed after `gen`. -/
def sealedSince (gen : ℕ) : Set κ :=
  {k | ∃ n, gen < n ∧ n < l.next ∧ k ∈ l.sealed n}

/-- The keys noted after generation `gen` was sealed. -/
def since (gen : ℕ) : Set κ := l.current ∪ l.sealedSince gen

theorem mark_mark (keys more : Set κ) : (l.mark keys).mark more = l.mark (keys ∪ more) := by
  simp only [mark, Set.union_assoc]

theorem subset_since_mark (keys : Set κ) (gen : ℕ) :
    l.since gen ∪ keys ⊆ (l.mark keys).since gen := by
  rintro k ((hk | hk) | hk)
  · exact .inl (.inl hk)
  · exact .inr hk
  · exact .inl (.inr hk)

/-- Sealing moves the notes of the generation under way, it loses none. -/
theorem since_advance {l : ChangeLog κ} {gen : ℕ} (h : gen < l.next) :
    l.advance.sealedSince gen = l.since gen := by
  ext k
  constructor
  · rintro ⟨n, hgen, hn, hk⟩
    rcases Nat.lt_succ_iff_lt_or_eq.1 hn with hlt | rfl
    · rw [advance_sealed_of_lt hlt] at hk
      exact .inr ⟨n, hgen, hlt, hk⟩
    · rw [advance_sealed_next] at hk
      exact .inl hk
  · rintro (hk | ⟨n, hgen, hn, hk⟩)
    · exact ⟨l.next, h, Nat.lt_succ_self _, by rw [advance_sealed_next]; exact hk⟩
    · exact ⟨n, hgen, Nat.lt_succ_of_lt hn, by rw [advance_sealed_of_lt hn]; exact hk⟩

end ChangeLog

end Ghostframe
