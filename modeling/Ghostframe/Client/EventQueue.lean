import Ghostframe.Lib.Run

/-!
# The client's event queue

Threads push events for the host, which polls an eventfd. A push inserts under the lock and
signals the eventfd afterwards; a pop takes the front and, while it still has the lock, drains the
eventfd of a queue that is now empty.

* `step`: the four steps, of any threads in any order; a step that has to wait changes nothing;
* `no_missed_wakeup`: a queue that is not empty is signalled or about to be, events come out once
  and in order, and popping to the end leaves nothing to read.
-/

namespace Ghostframe.Client

/-- The queue, the counter of its eventfd, the threads that have inserted and not signalled yet,
and whether a pop has the lock; `inserted` and `popped` are what went in and came out. -/
structure EventQueue (T E : Type*) where
  queue : List E := []
  counter : ℕ := 0
  signalling : Finset T := ∅
  popping : Bool := false
  inserted : List E := []
  popped : List E := []

/-- A step of a thread. -/
inductive QueueStep (T E : Type*)
  /-- the first half of `push` -/
  | insert (t : T) (ev : E)
  /-- the second half of `push` -/
  | signal (t : T)
  /-- the first half of `pop` -/
  | popFront
  /-- the second half of `pop` -/
  | drain

namespace EventQueue

variable {T E : Type*} [DecidableEq T]

def step (q : EventQueue T E) : QueueStep T E → EventQueue T E
  | .insert t ev =>
    if q.popping ∨ t ∈ q.signalling then q
    else
      { q with
        queue := q.queue ++ [ev]
        signalling := insert t q.signalling
        inserted := q.inserted ++ [ev] }
  | .signal t =>
    if t ∈ q.signalling then
      { q with counter := q.counter + 1, signalling := q.signalling.erase t }
    else q
  | .popFront =>
    if q.popping then q
    else
      { q with popping := true, queue := q.queue.tail, popped := q.popped ++ q.queue.head?.toList }
  | .drain =>
    if q.popping then
      { q with popping := false, counter := if q.queue.isEmpty then 0 else q.counter }
    else q

/-- `pop`, undisturbed. -/
def pop (q : EventQueue T E) : EventQueue T E := (q.step .popFront).step .drain

/-- Pop until there is nothing, `fuel` times at most. -/
def popUntilNone (q : EventQueue T E) : ℕ → EventQueue T E
  | 0 => q
  | fuel + 1 => if q.queue.isEmpty then q.pop else popUntilNone q.pop fuel

/-- A queue that is not empty is signalled or about to be, and nothing is lost or doubled. -/
structure Sound (q : EventQueue T E) : Prop where
  signalled : q.queue ≠ [] → 0 < q.counter ∨ q.signalling.Nonempty
  order : q.inserted = q.popped ++ q.queue

theorem Sound.step {q : EventQueue T E} (h : q.Sound) (a : QueueStep T E) : (q.step a).Sound := by
  cases a with
  | insert t ev =>
    simp only [EventQueue.step]
    split_ifs
    · exact h
    · exact ⟨fun _ => .inr ⟨t, Finset.mem_insert_self _ _⟩, by simp [h.order]⟩
  | signal t =>
    simp only [EventQueue.step]
    split_ifs
    · exact ⟨fun _ => .inl (Nat.succ_pos _), h.order⟩
    · exact h
  | popFront =>
    simp only [EventQueue.step]
    split_ifs
    · exact h
    · refine ⟨fun hne => h.signalled ?_, ?_⟩
      · intro hnil
        simp [hnil] at hne
      · rw [h.order, List.append_assoc]
        cases q.queue <;> rfl
  | drain =>
    simp only [EventQueue.step]
    split_ifs with _ hempty
    · exact ⟨fun hne => absurd (List.isEmpty_iff.1 hempty) hne, h.order⟩
    · exact ⟨h.signalled, h.order⟩
    · exact h

/-- One pop takes the front; the one that leaves nothing drains the eventfd. -/
theorem pop_eq {q : EventQueue T E} (hfree : q.popping = false) :
    q.pop =
      { q with
        queue := q.queue.tail
        popped := q.popped ++ q.queue.head?.toList
        counter := if q.queue.tail.isEmpty then 0 else q.counter } := by
  simp [pop, step, hfree]

theorem popUntilNone_eq (fuel : ℕ) : ∀ {q : EventQueue T E}, q.popping = false →
    q.queue.length < fuel →
      (q.popUntilNone fuel).queue = [] ∧ (q.popUntilNone fuel).counter = 0 ∧
        (q.popUntilNone fuel).popped = q.popped ++ q.queue := by
  induction fuel with
  | zero => exact fun _ hlt => absurd hlt (Nat.not_lt_zero _)
  | succ fuel ih =>
    intro q hfree hlt
    cases hq : q.queue with
    | nil => simp [popUntilNone, pop_eq hfree, hq]
    | cons ev rest =>
      have hnext := ih (q := q.pop) (by rw [pop_eq hfree, hfree])
        (by rw [pop_eq hfree]; simp only [hq, List.tail_cons, List.length_cons] at hlt ⊢; omega)
      simpa [popUntilNone, pop_eq hfree, hq] using hnext

/-- **No missed wake-up.** -/
theorem no_missed_wakeup (steps : List (QueueStep T E)) :
    let q : EventQueue T E := run step {} steps
    (q.signalling = ∅ → q.queue ≠ [] → 0 < q.counter) ∧ q.inserted = q.popped ++ q.queue ∧
      (q.signalling = ∅ → q.popping = false → ∀ fuel, q.queue.length < fuel →
        (q.popUntilNone fuel).queue = [] ∧ (q.popUntilNone fuel).counter = 0 ∧
          (q.popUntilNone fuel).popped = q.inserted) := by
  intro q
  have hq : q.Sound := run_inv (fun r a _ hr => hr.step a) ⟨fun h => absurd rfl h, rfl⟩
  refine ⟨fun hnone hne => ?_, hq.order, fun _ hfree fuel hfuel => ?_⟩
  · rcases hq.signalled hne with hpos | hsome
    · exact hpos
    · rw [hnone] at hsome
      exact absurd hsome Finset.not_nonempty_empty
  · rw [hq.order]
    exact popUntilNone_eq fuel hfree hfuel

/-- Two events are inserted and one is popped before either thread signals. -/
theorem no_missed_wakeup_late :
    let q : EventQueue Bool ℕ := run step {}
      [.insert false 7, .insert true 8, .popFront, .drain, .signal true, .signal false]
    q.queue = [8] ∧ 0 < q.counter ∧ (q.popUntilNone 2).popped = [7, 8] :=
  have h := no_missed_wakeup (T := Bool) (E := ℕ)
    [.insert false 7, .insert true 8, .popFront, .drain, .signal true, .signal false]
  ⟨rfl, h.1 rfl (by decide), (h.2.2 rfl rfl 2 (by decide)).2.2⟩

end EventQueue

end Ghostframe.Client
