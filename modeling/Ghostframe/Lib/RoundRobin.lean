import Mathlib

/-!
# Round robin by a cursor

A list is served in rounds. A round begins behind the element served last, walks
the list cyclically and serves at least one element; how many is left open.

* `fromCursor`: the order of a round;
* `Rounds`: a sequence of rounds, each a non-empty front of its order, each leaving
  the cursor at its last element;
* `Rounds.all_served`: as many rounds as the list is long serve every element.
-/

namespace Ghostframe

open List Nat

variable {α : Type*} [DecidableEq α]

/-- Where a round begins: behind the cursor, or at the front without one. -/
def startAt (order : List α) : Option α → ℕ
  | none => 0
  | some c => if c ∈ order then order.idxOf c + 1 else 0

/-- The order of a round. -/
def fromCursor (order : List α) (cursor : Option α) : List α :=
  order.rotate (startAt order cursor)

/-- Rounds that each serve a non-empty front of their order. -/
def Rounds (order : List α) : Option α → List (List α) → Prop
  | _, [] => True
  | cursor, served :: rounds =>
    served ≠ [] ∧ served <+: fromCursor order cursor ∧ Rounds order served.getLast? rounds

namespace Rounds

variable {order served : List α} {cursor : Option α}

/-- The elements a round serves, by their positions. -/
theorem getElem?_served (hs : served <+: fromCursor order cursor) {j : ℕ} (hj : j < served.length) :
    served[j]? = order[(startAt order cursor + j) % order.length]? := by
  have hlen : served.length ≤ order.length := by
    have := hs.length_le
    simpa [fromCursor] using this
  obtain ⟨rest, hrest⟩ := hs
  have hfront : served[j]? = (fromCursor order cursor)[j]? := by
    rw [← hrest, getElem?_append_left hj]
  rw [hfront, fromCursor, getElem?_rotate (by omega), add_comm j]

/-- The next round begins where this one stopped. -/
theorem startAt_getLast? (hnodup : order.Nodup) (hne : served ≠ [])
    (hs : served <+: fromCursor order cursor) :
    startAt order served.getLast? % order.length =
      (startAt order cursor + served.length) % order.length := by
  have hpos : 0 < served.length := length_pos_iff.2 hne
  have hlast : served.getLast? =
      order[(startAt order cursor + (served.length - 1)) % order.length]? := by
    rw [getLast?_eq_getElem?, getElem?_served hs (by omega)]
  have hn : 0 < order.length := by
    have := hs.length_le
    simp only [fromCursor, length_rotate] at this
    omega
  have hlt := mod_lt (startAt order cursor + (served.length - 1)) hn
  rw [hlast, getElem?_eq_getElem hlt]
  simp only [startAt, getElem_mem, if_true, hnodup.idxOf_getElem]
  rw [mod_add_mod]
  congr 1
  omega

/-- The positions from the start on are served, as many as there are rounds. -/
theorem mem_served (hnodup : order.Nodup) (rounds : List (List α)) :
    ∀ cursor : Option α, Rounds order cursor rounds → ∀ j < rounds.length, ∀ x,
      order[(startAt order cursor + j) % order.length]? = some x → ∃ served ∈ rounds,
          x ∈ served := by
  induction rounds with
  | nil => exact nofun
  | cons served rounds ih =>
    rintro cursor ⟨hne, hs, hrest⟩ j hj x hx
    have hpos : 0 < served.length := length_pos_iff.2 hne
    by_cases hfirst : j < served.length
    · rw [← getElem?_served hs hfirst] at hx
      exact ⟨served, mem_cons_self, mem_of_getElem? hx⟩
    · have hj' : j - served.length < rounds.length := by
        rw [length_cons] at hj
        omega
      have hpos' : (startAt order served.getLast? + (j - served.length)) % order.length =
          (startAt order cursor + j) % order.length := by
        rw [add_mod, startAt_getLast? hnodup hne hs, ← add_mod]
        congr 1
        omega
      rw [← hpos'] at hx
      obtain ⟨p, hp, hxp⟩ := ih served.getLast? hrest _ hj' x hx
      exact ⟨p, mem_cons_of_mem _ hp, hxp⟩

/-- **As many rounds as the list is long serve every element.** -/
theorem all_served (hnodup : order.Nodup) {rounds : List (List α)}
    (hr : Rounds order cursor rounds) (hlen : order.length ≤ rounds.length) {x : α}
    (hx : x ∈ order) : ∃ served ∈ rounds, x ∈ served := by
  obtain ⟨i, hi, rfl⟩ := mem_iff_getElem.1 hx
  -- how far `x` is behind the start
  let j := (i + (order.length - startAt order cursor % order.length)) % order.length
  have hn : 0 < order.length := by omega
  have hj : j < order.length := mod_lt _ hn
  have hat : (startAt order cursor + j) % order.length = i := by
    have hlt := mod_lt (startAt order cursor) hn
    have hround : startAt order cursor % order.length +
        (i + (order.length - startAt order cursor % order.length)) = i + order.length := by
      omega
    rw [add_mod_mod, ← mod_add_mod, hround, add_mod_right, mod_eq_of_lt hi]
  refine mem_served hnodup rounds cursor hr j (by omega) _ ?_
  rw [hat, getElem?_eq_getElem hi]

end Rounds

end Ghostframe
