import Ghostframe.Gpu.Dirty
import Ghostframe.Lib.Dict
import Ghostframe.Lib.Runs

/-!
# Damage rectangles

The dirty tiles of a grid as rectangles: the runs of each row, and runs that line up with
the row above joined to it.

* `coalesce`: row by row, with the rectangles still open for the next row in a map keyed by
  their extent;
* `covers_coalesce`: the rectangles cover exactly the dirty tiles;
* `covers_toPixels`: in pixels, exactly the pixels of those tiles that the framebuffer has.
-/

namespace Ghostframe.Gpu

open Dict List

/-- `TILE_SIZE`. -/
def tileSize : ℕ := 32

structure Rect where
  x : ℕ
  y : ℕ
  w : ℕ
  h : ℕ
  deriving DecidableEq

namespace Rect

/-- Is the place inside? -/
def Covers (r : Rect) (x y : ℕ) : Prop := r.x ≤ x ∧ x < r.x + r.w ∧ r.y ≤ y ∧ y < r.y + r.h

instance (r : Rect) (x y : ℕ) : Decidable (r.Covers x y) :=
  inferInstanceAs (Decidable (r.x ≤ x ∧ x < r.x + r.w ∧ r.y ≤ y ∧ y < r.y + r.h))

/-- `to_pixels`. -/
def toPixels (r : Rect) (fbWidth fbHeight : ℕ) : Rect :=
  let x := r.x * tileSize
  let y := r.y * tileSize
  ⟨x, y, min (r.w * tileSize) (fbWidth - x), min (r.h * tileSize) (fbHeight - y)⟩

theorem covers_toPixels (r : Rect) (fbWidth fbHeight x y : ℕ) :
    (r.toPixels fbWidth fbHeight).Covers x y ↔
      r.Covers (x / tileSize) (y / tileSize) ∧ x < fbWidth ∧ y < fbHeight := by
  simp only [Covers, toPixels, tileSize]
  omega

end Rect

variable (grid : DirtyGrid)

/-- `horizontal_runs`: the runs of dirty tiles in a row. -/
def horizontalRuns (y cols : ℕ) : List IndexRun :=
  (List.range cols).foldl (fun runs x => if grid.get x y then pushIndex runs x else runs) []

/-- A rectangle still open, one row higher; a run that lines up with none starts one. -/
def extendTo (y : ℕ) (run : IndexRun) : Option Rect → Rect
  | some r => { r with h := r.h + 1 }
  | none => ⟨run.1, y, run.2, 1⟩

/-- One run of row `y`: what is open of the row above, and what will be open for the next. -/
def placeRun (y : ℕ) (st : Dict IndexRun Rect × Dict IndexRun Rect) (run : IndexRun) :
    Dict IndexRun Rect × Dict IndexRun Rect :=
  (st.1.erase run, st.2.insert run (extendTo y run (st.1.get? run)))

/-- One row: its runs are placed, and what did not continue is closed. -/
def coalesceRow (st : Dict IndexRun Rect × List Rect) (y : ℕ) : Dict IndexRun Rect × List Rect :=
  let (left, nextOpen) := (horizontalRuns grid y grid.cols).foldl (placeRun y) (st.1, .empty)
  (nextOpen, st.2 ++ left.toList.map Prod.snd)

/-- `coalesce`. -/
def coalesce : List Rect :=
  let (opened, closed) := (List.range grid.rows).foldl (coalesceRow grid) (.empty, [])
  (closed ++ opened.toList.map Prod.snd).insertionSort fun a b =>
    a.y < b.y ∨ (a.y = b.y ∧ a.x ≤ b.x)

/-! ### The runs of a row -/

theorem inRuns_horizontalRuns (y x : ℕ) :
    InRuns (horizontalRuns grid y grid.cols) x ↔ grid.get x y = true := by
  have hrange : grid.get x y = true → x < grid.cols := by
    intro h
    unfold DirtyGrid.get DirtyGrid.bitIndex at h
    by_contra hx
    simp [not_lt.1 hx] at h
  rw [horizontalRuns, (foldl_pushIndex (fun x => grid.get x y) grid.cols).2.2 x]
  tauto

theorem nodup_horizontalRuns (y cols : ℕ) : (horizontalRuns grid y cols).Nodup :=
  nodup_foldl_pushIndex (fun x => grid.get x y) cols

/-- Distinct runs are placed one by one. -/
theorem foldl_placeRun {y : ℕ} {runs : List IndexRun} (hnodup : runs.Nodup)
    (left next : Dict IndexRun Rect) (run : IndexRun) :
    (runs.foldl (placeRun y) (left, next)).1.get? run =
        (if run ∈ runs then none else left.get? run) ∧
      (runs.foldl (placeRun y) (left, next)).2.get? run =
        if run ∈ runs then some (extendTo y run (left.get? run)) else next.get? run := by
  induction runs generalizing left next with
  | nil => simp
  | cons first runs ih =>
    obtain ⟨hfirst, hnodup⟩ := nodup_cons.1 hnodup
    obtain ⟨hleft, hnext⟩ := ih hnodup (left.erase first)
      (next.insert first (extendTo y first (left.get? first)))
    rw [foldl_cons, placeRun, hleft, hnext]
    by_cases hrun : run = first
    · subst hrun
      simp [hfirst]
    · simp [hrun, get?_erase_ne _ hrun, get?_insert_ne _ _ hrun]

/-! ### The rectangles of the rows so far -/

/-- After the rows above `y`: the open rectangles end there, and all of them cover exactly the
dirty tiles of those rows. -/
structure CoversRows (grid : DirtyGrid) (y : ℕ) (st : Dict IndexRun Rect × List Rect) : Prop where
  opened : ∀ run r, st.1.get? run = some r → r.x = run.1 ∧ r.w = run.2 ∧ r.y + r.h = y
  covers : ∀ tx ty,
    ((∃ r ∈ st.2, r.Covers tx ty) ∨ ∃ run r, st.1.get? run = some r ∧ r.Covers tx ty) ↔
    ty < y ∧ grid.get tx ty = true

theorem covers_extendTo {y : ℕ} {run : IndexRun} {old : Option Rect}
    (hold : ∀ r ∈ old, r.x = run.1 ∧ r.w = run.2 ∧ r.y + r.h = y) (tx ty : ℕ) :
    (extendTo y run old).Covers tx ty ↔
      (∃ r ∈ old, r.Covers tx ty) ∨ (ty = y ∧ run.1 ≤ tx ∧ tx < run.1 + run.2) := by
  cases old with
  | none =>
    simp only [extendTo, Rect.Covers, Option.not_mem_none, false_and, exists_false, false_or]
    omega
  | some r =>
    obtain ⟨hx, hw, hy⟩ := hold r rfl
    simp only [extendTo, Rect.Covers, Option.mem_some_iff, exists_eq_left', hx, hw]
    omega

/-- A tile under a closed rectangle or under an open one. -/
theorem exists_covers_append {closed : List Rect} {opened : Dict IndexRun Rect} {tx ty : ℕ} :
    (∃ r ∈ closed ++ opened.toList.map Prod.snd, r.Covers tx ty) ↔
      (∃ r ∈ closed, r.Covers tx ty) ∨ ∃ run r, opened.get? run = some r ∧ r.Covers tx ty := by
  simp only [mem_append, or_and_right, exists_or]
  refine or_congr_right ⟨?_, ?_⟩
  · rintro ⟨r, hr, hcovers⟩
    obtain ⟨⟨run, r'⟩, hmem, rfl⟩ := mem_map.1 hr
    exact ⟨run, r', (opened.mem_toList_iff run r').1 hmem, hcovers⟩
  · rintro ⟨run, r, hr, hcovers⟩
    exact ⟨r, mem_map.2 ⟨(run, r), (opened.mem_toList_iff run r).2 hr, rfl⟩, hcovers⟩

theorem CoversRows.coalesceRow {grid : DirtyGrid} {y : ℕ} {st : Dict IndexRun Rect × List Rect}
    (h : CoversRows grid y st) : CoversRows grid (y + 1) (coalesceRow grid st y) := by
  have hplaced := foldl_placeRun (y := y) (nodup_horizontalRuns grid y grid.cols) st.1 .empty
  have hrow := inRuns_horizontalRuns grid y
  unfold Gpu.coalesceRow
  generalize horizontalRuns grid y grid.cols = runs at hplaced hrow
  generalize hres : runs.foldl (placeRun y) (st.1, empty) = res at hplaced
  obtain ⟨left, next⟩ := res
  have hleft := fun run => (hplaced run).1
  have hnext := fun run => (hplaced run).2
  constructor
  · intro run r hr
    rw [hnext, get?_empty] at hr
    split_ifs at hr with hin
    obtain rfl := Option.some.inj hr
    cases hold : st.1.get? run with
    | none => exact ⟨rfl, rfl, rfl⟩
    | some old =>
      obtain ⟨hx, hw, hy⟩ := h.opened run old hold
      exact ⟨hx, hw, by simp only [extendTo]; omega⟩
  · intro tx ty
    -- closed ones, those that were open and stop here, and those that go on
    have hclosed : (∃ r ∈ st.2 ++ left.toList.map Prod.snd, r.Covers tx ty) ↔
        (∃ r ∈ st.2, r.Covers tx ty) ∨
          ∃ run r, run ∉ runs ∧ st.1.get? run = some r ∧ r.Covers tx ty := by
      rw [exists_covers_append]
      simp only [hleft, Option.ite_none_left_eq_some, and_assoc]
    have hopen : (∃ run r, next.get? run = some r ∧ r.Covers tx ty) ↔
        (∃ run r, run ∈ runs ∧ st.1.get? run = some r ∧ r.Covers tx ty) ∨
          (ty = y ∧ grid.get tx y = true) := by
      rw [← hrow]
      constructor
      · rintro ⟨run, r, hr, hcovers⟩
        rw [hnext, get?_empty] at hr
        split_ifs at hr with hin
        obtain rfl := Option.some.inj hr
        rcases (covers_extendTo (h.opened run) tx ty).1 hcovers with ⟨r, hr, hcovers⟩ | ⟨hty, hx⟩
        · exact .inl ⟨run, r, hin, hr, hcovers⟩
        · exact .inr ⟨hty, run, hin, hx⟩
      · rintro (⟨run, r, hin, hr, hcovers⟩ | ⟨hty, run, hin, hx⟩)
        · refine ⟨run, _, by rw [hnext, if_pos hin], ?_⟩
          exact (covers_extendTo (h.opened run) tx ty).2 (.inl ⟨r, hr, hcovers⟩)
        · refine ⟨run, _, by rw [hnext, if_pos hin], ?_⟩
          exact (covers_extendTo (h.opened run) tx ty).2 (.inr ⟨hty, hx⟩)
    have hsplit : (∃ run r, st.1.get? run = some r ∧ r.Covers tx ty) ↔
        (∃ run r, run ∉ runs ∧ st.1.get? run = some r ∧ r.Covers tx ty) ∨
          ∃ run r, run ∈ runs ∧ st.1.get? run = some r ∧ r.Covers tx ty := by
      simp only [← exists_or, ← or_and_right, em', true_and]
    have hbefore := h.covers tx ty
    rw [hsplit] at hbefore
    rw [hclosed, hopen]
    have hrows : ty < y + 1 ∧ grid.get tx ty = true ↔
        (ty < y ∧ grid.get tx ty = true) ∨ (ty = y ∧ grid.get tx y = true) := by
      rw [Nat.lt_succ_iff_lt_or_eq, or_and_right]
      exact or_congr_right (and_congr_right fun hy => by rw [hy])
    rw [hrows, ← hbefore]
    simp only [or_assoc]

theorem coversRows_range (n : ℕ) :
    CoversRows grid n ((List.range n).foldl (Gpu.coalesceRow grid) (.empty, [])) := by
  induction n with
  | zero => exact ⟨fun run r hr => (nomatch hr), fun tx ty => by simp⟩
  | succ n ih =>
    rw [range_succ, foldl_append]
    exact ih.coalesceRow

/-- **The rectangles cover exactly the dirty tiles.** -/
theorem covers_coalesce (tx ty : ℕ) :
    (∃ r ∈ coalesce grid, r.Covers tx ty) ↔ grid.get tx ty = true := by
  have hrows := (coversRows_range grid grid.rows).covers tx ty
  have hrange : grid.get tx ty = true → ty < grid.rows := by
    intro h
    unfold DirtyGrid.get DirtyGrid.bitIndex at h
    by_contra hy
    simp [not_lt.1 hy] at h
  unfold coalesce
  generalize (range grid.rows).foldl (Gpu.coalesceRow grid) (.empty, []) = st at hrows
  obtain ⟨opened, closed⟩ := st
  rw [show grid.get tx ty = true ↔ ty < grid.rows ∧ grid.get tx ty = true by tauto, ← hrows]
  simp only [mem_insertionSort]
  exact exists_covers_append

/-- An L of three tiles is two rectangles. -/
example :
    coalesce ((((DirtyGrid.new 2 2).set 0 0).set 0 1).set 1 1) = [⟨0, 0, 1, 1⟩, ⟨0, 1, 2, 1⟩] := by
  decide +kernel

end Ghostframe.Gpu
