import Ghostframe.X11.TileBitmap

/-!
# Row bands

A set of tiles to grab becomes at most `maxBands` full-width bands of pixel rows, or one
full grab when the bands would take most of the screen.

* `plan`: the bands of a bitmap;
* `plan_covers`: every tile of the bitmap lies in the planned rows;
* `plan_exact`: when the grab is full, and what its bands are.
-/

namespace Ghostframe.X11

open List Nat

open Capture (tileSize tilesAlong)
open TileBitmap (tileOf)

/-- `MERGE_GAP_TILE_ROWS`. -/
def mergeGapTileRows : ℕ := 2

/-- `MAX_BANDS`. -/
def maxBands : ℕ := 16

/-- `FULL_GRAB_ABOVE_PCT`. -/
def fullGrabAbovePct : ℕ := 50

/-- Pixel rows `y0..y1`, full width. -/
structure Band where
  y0 : ℕ
  y1 : ℕ
  deriving DecidableEq

/-- `rows`. -/
def Band.rows (b : Band) : ℕ := b.y1 - b.y0

/-- What to grab into a slot. -/
inductive Grab
  | full
  | bands (bs : List Band)
  deriving DecidableEq

/-- A run of tile rows: the first, and the one after the last. -/
abbrev TileRows := ℕ × ℕ

variable (runs : List TileRows)

/-- The gap before run `i`. -/
def gapBefore (i : ℕ) : ℕ :=
  (runs.getD i (0, 0)).1 - (runs.getD (i - 1) (0, 0)).2

/-- Run `i` is folded into the run before it. -/
def foldInto (i : ℕ) : List TileRows :=
  runs.take (i - 1) ++
    ((runs.getD (i - 1) (0, 0)).1, (runs.getD i (0, 0)).2) :: runs.drop (i + 1)

/-- `merge_smallest_gap`. -/
def mergeSmallestGap : List TileRows :=
  match (List.range' 1 (runs.length - 1)).argmin (gapBefore runs) with
  | some i => foldInto runs i
  | none => runs

/-- A new row: it extends the last run over a small gap, or starts one. -/
def pushTileRow (ty : ℕ) : List TileRows :=
  match runs.getLast? with
  | some last =>
    if last.2 = ty ∨ ty - last.2 ≤ mergeGapTileRows then runs.dropLast ++ [(last.1, ty + 1)]
    else
      (if runs.length = maxBands + 1 then mergeSmallestGap runs else runs) ++ [(ty, ty + 1)]
  | none => [(ty, ty + 1)]

/-- One tile of the scan: only the first of its row counts. -/
def scanTile (scan : List TileRows × Option ℕ) (t : ℕ × ℕ) : List TileRows × Option ℕ :=
  if scan.2 = some t.2 then scan else (pushTileRow scan.1 t.2, some t.2)

variable (mask : TileBitmap)

/-- The runs of tile rows with a marked tile, at most `maxBands` of them. -/
def tileRuns : List TileRows :=
  let runs := (mask.iter.foldl scanTile ([], none)).1
  mergeSmallestGap^[runs.length - maxBands] runs

variable (height : ℕ)

/-- The pixel rows of a run, cut at the bottom of the screen. -/
def bandOf (run : TileRows) : Band :=
  ⟨min (run.1 * tileSize) height, min (run.2 * tileSize) height⟩

/-- `Bands::rows`. -/
def bandRows (bs : List Band) : ℕ := (bs.map Band.rows).sum

/-- `plan`: the bands that cover `mask` on a screen `height` pixels tall. -/
def plan : Grab :=
  let out := (tileRuns mask).map (bandOf height)
  if bandRows out * 100 > height * fullGrabAbovePct then .full else .bands out

/-- The pixel rows a grab asks for. -/
def Grab.wanted (g : Grab) (height : ℕ) : List Band :=
  match g with
  | .full => [⟨0, height⟩]
  | .bands bs => bs

/-! ### Runs of tile rows -/

/-- Is the row in one of the runs? -/
def InRows (runs : List TileRows) (ty : ℕ) : Prop := ∃ run ∈ runs, run.1 ≤ ty ∧ ty < run.2

/-- The runs are in order. -/
def OrderedRows (runs : List TileRows) : Prop :=
  runs.Pairwise (fun a b => a.2 ≤ b.1) ∧ ∀ run ∈ runs, run.1 ≤ run.2

variable {runs : List TileRows} {ty : ℕ}

/-- A merge folds a run into the one before it, and there is one if there are two runs. -/
theorem mergeSmallestGap_cases (runs : List TileRows) :
    (runs.length < 2 ∧ mergeSmallestGap runs = runs) ∨
      ∃ pre a b post, runs = pre ++ a :: b :: post ∧
        mergeSmallestGap runs = pre ++ (a.1, b.2) :: post := by
  unfold mergeSmallestGap
  rcases hmin : (range' 1 (runs.length - 1)).argmin (gapBefore runs) with _ | i
  · rw [argmin_eq_none, range'_eq_nil_iff] at hmin
    exact .inl ⟨by omega, rfl⟩
  · obtain ⟨hpos, hlt⟩ := mem_range'_1.1 (argmin_mem hmin)
    obtain ⟨j, rfl⟩ := Nat.exists_eq_add_of_le' hpos
    have hi : j + 1 < runs.length := by omega
    have hj : j < runs.length := by omega
    refine .inr ⟨runs.take j, runs[j], runs[j + 1], runs.drop (j + 2), ?_, ?_⟩
    · rw [← drop_eq_getElem_cons, ← drop_eq_getElem_cons, take_append_drop]
    · dsimp only
      rw [foldInto, Nat.add_sub_cancel, List.getD_eq_getElem _ _ hj, List.getD_eq_getElem _ _ hi]

/-- Every run has a row, and ends by row `n`. -/
def Tight (n : ℕ) (runs : List TileRows) : Prop := ∀ run ∈ runs, run.1 < run.2 ∧ run.2 ≤ n

theorem mergeSmallestGap_covers (hordered : OrderedRows runs) :
    OrderedRows (mergeSmallestGap runs) ∧
      (2 ≤ runs.length → (mergeSmallestGap runs).length + 1 = runs.length) ∧
      (∀ ty, InRows runs ty → InRows (mergeSmallestGap runs) ty) ∧
      ∀ n, Tight n runs → Tight n (mergeSmallestGap runs) := by
  obtain ⟨hlen, hmerge⟩ | ⟨pre, a, b, post, rfl, hmerge⟩ := mergeSmallestGap_cases runs
  · rw [hmerge]
    exact ⟨hordered, fun h => by omega, fun _ h => h, fun _ h => h⟩
  rw [hmerge]
  obtain ⟨hpair, hle⟩ := hordered
  obtain ⟨hpre, hrest, hacross⟩ := pairwise_append.1 hpair
  obtain ⟨ha, hrest⟩ := pairwise_cons.1 hrest
  obtain ⟨hb, hpost⟩ := pairwise_cons.1 hrest
  -- the hull of two neighbours lies between the runs around them
  have hab : a.2 ≤ b.1 := ha b mem_cons_self
  simp only [mem_append, mem_cons, or_imp, forall_and, forall_eq] at hle
  refine ⟨⟨pairwise_append.2 ⟨hpre, pairwise_cons.2 ⟨hb, hpost⟩, ?_⟩, ?_⟩, ?_, ?_, ?_⟩
  · intro x hx y hy
    rcases mem_cons.1 hy with rfl | hy
    · exact hacross x hx a mem_cons_self
    · exact hacross x hx y (mem_cons_of_mem _ (mem_cons_of_mem _ hy))
  · simp only [mem_append, mem_cons, or_imp, forall_and, forall_eq]
    exact ⟨hle.1, by omega, hle.2.2.2⟩
  · simp only [length_append, length_cons]
    omega
  · rintro ty ⟨run, hrun, hlo, hhi⟩
    simp only [mem_append, mem_cons] at hrun
    rcases hrun with hrun | rfl | rfl | hrun
    · exact ⟨run, mem_append_left _ hrun, hlo, hhi⟩
    · exact ⟨_, mem_append_right _ mem_cons_self, hlo, by omega⟩
    · exact ⟨_, mem_append_right _ mem_cons_self, by omega, hhi⟩
    · exact ⟨run, mem_append_right _ (mem_cons_of_mem _ hrun), hlo, hhi⟩
  · intro n ht
    simp only [Tight, mem_append, mem_cons, or_imp, forall_and, forall_eq] at ht ⊢
    exact ⟨⟨ht.1.1, by omega, ht.1.2.2.2⟩, ht.2.1, ht.2.2.2⟩

theorem inRows_append {more : List TileRows} :
    InRows (runs ++ more) ty ↔ InRows runs ty ∨ InRows more ty := by
  simp only [InRows, mem_append, or_and_right, exists_or]

theorem inRows_singleton {run : TileRows} : InRows [run] ty ↔ run.1 ≤ ty ∧ ty < run.2 := by
  simp [InRows]

/-- The last run ends before row `n`. -/
def EndsBy (runs : List TileRows) (n : ℕ) : Prop := ∀ run ∈ runs, run.2 ≤ n

theorem orderedRows_append {run : TileRows} :
    OrderedRows (runs ++ [run]) ↔ OrderedRows runs ∧ EndsBy runs run.1 ∧ run.1 ≤ run.2 := by
  simp only [OrderedRows, EndsBy, pairwise_append, pairwise_singleton, mem_append,
    mem_singleton, forall_eq, true_and, or_imp, forall_and]
  tauto

theorem EndsBy.mergeSmallestGap {n : ℕ} (h : EndsBy runs n) : EndsBy (mergeSmallestGap runs) n := by
  obtain ⟨-, hmerge⟩ | ⟨pre, a, b, post, rfl, hmerge⟩ := mergeSmallestGap_cases runs
  · rwa [hmerge]
  · rw [hmerge]
    simp only [EndsBy, mem_append, mem_cons, or_imp, forall_and, forall_eq] at h ⊢
    exact ⟨h.1, h.2.2⟩

theorem newRun_covers (hordered : OrderedRows runs) (hend : EndsBy runs ty) :
    OrderedRows (runs ++ [(ty, ty + 1)]) ∧ EndsBy (runs ++ [(ty, ty + 1)]) (ty + 1) ∧
      InRows (runs ++ [(ty, ty + 1)]) ty := by
  refine ⟨orderedRows_append.2 ⟨hordered, hend, le_succ ty⟩, fun run hrun => ?_, ?_⟩
  · rcases mem_append.1 hrun with hrun | hrun
    · exact (hend run hrun).trans (le_succ ty)
    · rw [mem_singleton.1 hrun]
  · exact inRows_append.2 (.inr (inRows_singleton.2 ⟨le_rfl, lt_succ_self ty⟩))

theorem tight_append {n : ℕ} {run : TileRows} :
    Tight n (runs ++ [run]) ↔ Tight n runs ∧ run.1 < run.2 ∧ run.2 ≤ n := by
  simp only [Tight, mem_append, mem_singleton, or_imp, forall_and, forall_eq]
  tauto

theorem pushTileRow_covers (hordered : OrderedRows runs) (hend : EndsBy runs ty) :
    OrderedRows (pushTileRow runs ty) ∧ EndsBy (pushTileRow runs ty) (ty + 1) ∧
      InRows (pushTileRow runs ty) ty ∧ (∀ r, InRows runs r → InRows (pushTileRow runs ty) r) ∧
      ∀ n, ty < n → Tight n runs → Tight n (pushTileRow runs ty) := by
  unfold pushTileRow
  rcases eq_nil_or_concat runs with rfl | ⟨init, last, rfl⟩
  · simp +contextual [OrderedRows, EndsBy, InRows, Tight]
  · rw [concat_eq_append] at hordered hend ⊢
    simp only [getLast?_append, getLast?_singleton, Option.some_or,
      dropLast_concat]
    obtain ⟨hinit, hinitEnd, hle⟩ := orderedRows_append.1 hordered
    have hlast : last.2 ≤ ty := hend last (by simp)
    split_ifs with hnear hfull
    · -- the last run reaches the row
      refine ⟨orderedRows_append.2 ⟨hinit, hinitEnd, by omega⟩, ?_, ?_, ?_, ?_⟩
      · intro run hrun
        rcases mem_append.1 hrun with hrun | hrun
        · exact (hinitEnd run hrun).trans (by omega)
        · rw [mem_singleton.1 hrun]
      · exact inRows_append.2 (.inr (inRows_singleton.2 ⟨by omega, by simp⟩))
      · intro r hr
        rcases inRows_append.1 hr with hr | hr
        · exact inRows_append.2 (.inl hr)
        · have := inRows_singleton.1 hr
          exact inRows_append.2 (.inr (inRows_singleton.2 ⟨this.1, by omega⟩))
      · intro n hn ht
        obtain ⟨hinitTight, hlastTight⟩ := tight_append.1 ht
        exact tight_append.2 ⟨hinitTight, by omega⟩
    · obtain ⟨hmerged, -, hcovers, htight⟩ := mergeSmallestGap_covers hordered
      obtain ⟨hnew, hnewEnd, hrow⟩ := newRun_covers hmerged hend.mergeSmallestGap
      exact ⟨hnew, hnewEnd, hrow, fun r hr => inRows_append.2 (.inl (hcovers r hr)),
        fun n hn ht => tight_append.2 ⟨htight n ht, lt_succ_self ty, hn⟩⟩
    · obtain ⟨hnew, hnewEnd, hrow⟩ := newRun_covers hordered hend
      exact ⟨hnew, hnewEnd, hrow, fun r hr => inRows_append.2 (.inl hr),
        fun n hn ht => tight_append.2 ⟨ht, lt_succ_self ty, hn⟩⟩

/-! ### The planned bands -/

/-- What the scan has found so far. -/
structure Scanned (scan : List TileRows × Option ℕ) : Prop where
  ordered : OrderedRows scan.1
  ends : ∀ last ∈ scan.2, EndsBy scan.1 (last + 1)
  start : scan.2 = none → scan.1 = []
  last : ∀ last ∈ scan.2, InRows scan.1 last

theorem Scanned.scanTile {scan : List TileRows × Option ℕ} (h : Scanned scan) {t : ℕ × ℕ}
    (hlast : ∀ last ∈ scan.2, last ≤ t.2) :
    Scanned (scanTile scan t) ∧ (scanTile scan t).2 = some t.2 ∧
      (∀ r, InRows scan.1 r → InRows (X11.scanTile scan t).1 r) ∧
      ∀ n, t.2 < n → Tight n scan.1 → Tight n (X11.scanTile scan t).1 := by
  unfold X11.scanTile
  split_ifs with hsame
  · exact ⟨h, hsame, fun _ hr => hr, fun _ _ ht => ht⟩
  · have hend : EndsBy scan.1 t.2 := by
      rcases hrow : scan.2 with _ | last
      · rw [h.start hrow]
        exact fun _ hrun => absurd hrun not_mem_nil
      · have hlt : last < t.2 :=
          lt_of_le_of_ne (hlast last hrow) fun heq => hsame (heq ▸ hrow)
        exact fun run hrun => (h.ends last hrow run hrun).trans hlt
    obtain ⟨hordered, hends, hrow, hkept⟩ := pushTileRow_covers h.ordered hend
    refine ⟨⟨hordered, ?_, fun hnone => ?_, ?_⟩, rfl, hkept⟩
    · rintro last hlast
      obtain rfl := Option.some.inj hlast
      exact hends
    · cases hnone
    · rintro last hlast
      obtain rfl := Option.some.inj hlast
      exact hrow

/-- Every scanned row is in a run. -/
theorem foldl_scanTile {tiles : List (ℕ × ℕ)} (hrows : tiles.Pairwise fun s t => s.2 ≤ t.2)
    {scan : List TileRows × Option ℕ} (h : Scanned scan)
    (hlast : ∀ last ∈ scan.2, ∀ t ∈ tiles, last ≤ t.2) :
    OrderedRows (tiles.foldl scanTile scan).1 ∧
      (∀ r, InRows scan.1 r → InRows (tiles.foldl scanTile scan).1 r) ∧
      (∀ t ∈ tiles, InRows (tiles.foldl scanTile scan).1 t.2) ∧
      ∀ n, (∀ t ∈ tiles, t.2 < n) → Tight n scan.1 → Tight n (tiles.foldl scanTile scan).1 := by
  induction tiles generalizing scan with
  | nil => exact ⟨h.ordered, fun _ hr => hr, fun _ ht => absurd ht not_mem_nil, fun _ _ ht => ht⟩
  | cons t tiles ih =>
    obtain ⟨hhead, hrows⟩ := pairwise_cons.1 hrows
    obtain ⟨hscan, hrow, hcovers, htight⟩ :=
      h.scanTile fun last hmem => hlast last hmem t mem_cons_self
    have hnext : ∀ last ∈ (scanTile scan t).2, ∀ s ∈ tiles, last ≤ s.2 := by
      intro last hmem s hs
      rw [hrow, Option.mem_some_iff] at hmem
      exact hmem ▸ hhead s hs
    obtain ⟨hordered, hkept, hall, htights⟩ := ih hrows hscan hnext
    refine ⟨hordered, fun r hr => hkept r (hcovers r hr), fun s hs => ?_, fun n hn ht => ?_⟩
    · rcases mem_cons.1 hs with rfl | hs
      · exact hkept _ (hscan.last _ hrow)
      · exact hall s hs
    · rw [forall_mem_cons] at hn
      exact htights n hn.2 (htight n hn.1 ht)

theorem iterate_mergeSmallestGap (hordered : OrderedRows runs) (n : ℕ)
    (hn : n < runs.length ∨ n = 0) :
    (mergeSmallestGap^[n] runs).length = runs.length - n ∧
      OrderedRows (mergeSmallestGap^[n] runs) ∧
      (∀ r, InRows runs r → InRows (mergeSmallestGap^[n] runs) r) ∧
      ∀ m, Tight m runs → Tight m (mergeSmallestGap^[n] runs) := by
  induction n generalizing runs with
  | zero => exact ⟨rfl, hordered, fun _ hr => hr, fun _ ht => ht⟩
  | succ n ih =>
    rw [Function.iterate_succ_apply]
    obtain ⟨hmerged, hlen, hcovers, htight⟩ := mergeSmallestGap_covers hordered
    obtain ⟨hlen', hordered', hcovers', htight'⟩ := ih hmerged (by omega)
    exact ⟨by omega, hordered', fun r hr => hcovers' r (hcovers r hr),
      fun m ht => htight' m (htight m ht)⟩

/-- The runs found in some tiles. -/
def scanned (tiles : List (ℕ × ℕ)) : List TileRows := (tiles.foldl scanTile ([], none)).1

theorem scanned_covers {mask : TileBitmap} {tiles rest : List (ℕ × ℕ)}
    (hiter : mask.iter = tiles ++ rest) :
    OrderedRows (scanned tiles) ∧ (∀ t ∈ tiles, InRows (scanned tiles) t.2) ∧
      Tight mask.tilesH (scanned tiles) := by
  have hstart : Scanned ([], none) := by
    refine ⟨⟨List.Pairwise.nil, fun _ h => absurd h not_mem_nil⟩, ?_, fun _ => rfl, ?_⟩ <;>
      exact fun _ h => absurd h (Option.not_mem_none _)
  have hrows := mask.iter_rows
  rw [hiter] at hrows
  obtain ⟨hordered, -, hall, htight⟩ :=
    foldl_scanTile (pairwise_append.1 hrows).1 hstart fun _ h => absurd h (Option.not_mem_none _)
  refine ⟨hordered, hall, htight _ (fun t ht => ?_) fun _ h => absurd h not_mem_nil⟩
  have hmem : t ∈ mask.iter := hiter ▸ mem_append_left _ ht
  exact (TileBitmap.get_eq_true.1 (TileBitmap.mem_iter.1 hmem)).1.2

theorem tileRuns_covers : (tileRuns mask).length ≤ maxBands ∧ OrderedRows (tileRuns mask) ∧
      (∀ t ∈ mask.tiles, InRows (tileRuns mask) t.2) ∧ Tight mask.tilesH (tileRuns mask) := by
  obtain ⟨hordered, hall, htight⟩ := scanned_covers (append_nil mask.iter).symm
  obtain ⟨hlen, hordered', hcovers, htight'⟩ := iterate_mergeSmallestGap hordered
    ((scanned mask.iter).length - maxBands) (by unfold maxBands; omega)
  refine ⟨?_, hordered', fun t ht => hcovers _ (hall t (TileBitmap.mem_iter.2 ht)),
    htight' _ htight⟩
  exact hlen.le.trans (by omega)

/-- The row is asked for. -/
def InBands (bs : List Band) (y : ℕ) : Prop := ∃ b ∈ bs, b.y0 ≤ y ∧ y < b.y1

instance (bs : List Band) (y : ℕ) : Decidable (InBands bs y) :=
  inferInstanceAs (Decidable (∃ b ∈ bs, b.y0 ≤ y ∧ y < b.y1))

theorem inBands_full {height y : ℕ} (hy : y < height) : InBands (Grab.full.wanted height) y :=
  ⟨_, mem_singleton_self _, zero_le y, hy⟩

/-- The bands of the merged runs. -/
def mergedBands : List Band := (tileRuns mask).map (bandOf height)

theorem inBands_mergedBands {mask : TileBitmap} {height : ℕ} {p : ℕ × ℕ} (hy : p.2 < height)
    (hmark : tileOf p ∈ mask.tiles) : InBands (mergedBands mask height) p.2 := by
  obtain ⟨run, hrun, hlo, hhi⟩ := (tileRuns_covers mask).2.2.1 _ hmark
  refine ⟨bandOf height run, mem_map_of_mem hrun, ?_, ?_⟩
  · exact (min_le_left _ _).trans ((le_div_iff_mul_le (by decide)).1 hlo)
  · exact lt_min ((div_lt_iff_lt_mul (by decide)).1 hhi) hy

/-- A plan asks for the rows of every marked tile. -/
theorem plan_covers {mask : TileBitmap} {height : ℕ} {p : ℕ × ℕ} (hy : p.2 < height)
    (hmark : tileOf p ∈ mask.tiles) : InBands ((plan mask height).wanted height) p.2 := by
  unfold plan
  dsimp only
  split_ifs
  · exact inBands_full hy
  · exact inBands_mergedBands hy hmark

/-! ### The plan is exact -/

theorem mergedBands_ordered :
    (mergedBands mask height).Pairwise fun a b => a.y1 ≤ b.y0 := by
  refine pairwise_map.2 ((tileRuns_covers mask).2.1.1.imp fun hab => ?_)
  exact min_le_min_right _ (Nat.mul_le_mul_right _ hab)

theorem mergedBands_inside : ∀ b ∈ mergedBands mask mask.px.2, b.y0 < b.y1 ∧ b.y1 ≤ mask.px.2 := by
  intro b hb
  obtain ⟨run, hrun, rfl⟩ := mem_map.1 hb
  obtain ⟨hlt, hend⟩ := (tileRuns_covers mask).2.2.2 run hrun
  -- the last tile row begins on the screen
  have hstart : run.1 * tileSize < mask.px.2 := by
    have hrow := hlt.trans_le hend
    unfold TileBitmap.tilesH tilesAlong at hrow
    unfold tileSize at *
    omega
  refine ⟨?_, min_le_right _ _⟩
  rw [bandOf, min_eq_left hstart.le]
  exact lt_min (Nat.mul_lt_mul_of_pos_right hlt (by decide)) hstart

/-- The rows asked for are as many as the bands have. -/
theorem card_inBands {height : ℕ} {bs : List Band} (hpair : bs.Pairwise fun a b => a.y1 ≤ b.y0)
    (hin : ∀ b ∈ bs, b.y0 < b.y1 ∧ b.y1 ≤ height) :
    ((Finset.range height).filter (InBands bs)).card = bandRows bs := by
  induction bs with
  | nil => simp [InBands, bandRows]
  | cons b bs ih =>
    obtain ⟨hb, hpair⟩ := pairwise_cons.1 hpair
    rw [forall_mem_cons] at hin
    -- the rows of the first band, and those of the bands below it
    have hrows : (Finset.range height).filter (InBands (b :: bs)) =
        Finset.Ico b.y0 b.y1 ∪ (Finset.range height).filter (InBands bs) := by
      ext y
      have hy : y < b.y1 → y < height := fun h => h.trans_le hin.1.2
      simp only [InBands, Finset.mem_filter, Finset.mem_union, Finset.mem_Ico, Finset.mem_range,
        exists_mem_cons_iff]
      tauto
    have hdisjoint : Disjoint (Finset.Ico b.y0 b.y1)
        ((Finset.range height).filter (InBands bs)) := by
      refine Finset.disjoint_left.2 fun y hy hbs => ?_
      obtain ⟨b', hb', hlo, -⟩ := (Finset.mem_filter.1 hbs).2
      exact ((Finset.mem_Ico.1 hy).2.trans_le ((hb b' hb').trans hlo)).false
    rw [hrows, Finset.card_union_of_disjoint hdisjoint, Nat.card_Ico, ih hpair hin.2]
    rfl

/-- The runs `merge_smallest_gap` is called on: a full array in the scan, or too many at its end. -/
inductive MergeCall (mask : TileBitmap) : List TileRows → Prop
  | scan {tiles rest : List (ℕ × ℕ)} (hiter : mask.iter = tiles ++ rest)
      (hfull : (scanned tiles).length = maxBands + 1) : MergeCall mask (scanned tiles)
  | trim {i : ℕ} (hi : i < (scanned mask.iter).length - maxBands) :
      MergeCall mask (mergeSmallestGap^[i] (scanned mask.iter))

theorem MergeCall.tight {mask : TileBitmap} (h : MergeCall mask runs) :
    2 ≤ runs.length ∧ OrderedRows runs ∧ Tight mask.tilesH runs := by
  cases h with
  | scan hiter hfull =>
    obtain ⟨hordered, -, htight⟩ := scanned_covers hiter
    exact ⟨hfull ▸ by decide, hordered, htight⟩
  | @trim i hi =>
    obtain ⟨hordered, -, htight⟩ := scanned_covers (append_nil mask.iter).symm
    obtain ⟨hlen, hordered', -, htight'⟩ := iterate_mergeSmallestGap hordered i (by omega)
    unfold maxBands at hi
    exact ⟨by omega, hordered', htight' _ htight⟩

/-- **A full grab is planned exactly when the merged bands have more than half of the rows; the
bands are at most 16, in order, disjoint, not empty and inside the screen, and have every row of a
marked tile; a merge has two runs to merge and leaves the others as they are.** -/
theorem plan_exact (mask : TileBitmap) :
    let height := mask.px.2
    let bands := mergedBands mask height
    (plan mask height = .full ↔
      height * 50 < ((Finset.range height).filter (InBands bands)).card * 100) ∧
    (plan mask height ≠ .full → plan mask height = .bands bands) ∧
    bands.length ≤ 16 ∧ bands.Pairwise (fun a b => a.y1 ≤ b.y0) ∧
    (∀ b ∈ bands, b.y0 < b.y1 ∧ b.y1 ≤ height) ∧
    (∀ x y, y < height → tileOf (x, y) ∈ mask.tiles → InBands bands y) ∧
    ∀ runs, MergeCall mask runs → ∃ pre a b post, runs = pre ++ a :: b :: post ∧
      a.1 < a.2 ∧ a.2 ≤ b.1 ∧ b.1 < b.2 ∧ mergeSmallestGap runs = pre ++ (a.1, b.2) :: post := by
  intro height bands
  have hordered := mergedBands_ordered mask height
  have hinside := mergedBands_inside mask
  have hplan : plan mask height =
      if height * 50 < ((Finset.range height).filter (InBands bands)).card * 100 then .full
      else .bands bands := by
    rw [card_inBands hordered hinside]
    rfl
  refine ⟨?_, ?_, ?_, hordered, hinside, fun x y hy => inBands_mergedBands hy, ?_⟩
  · rw [hplan]
    split_ifs <;> simp [*]
  · rw [hplan]
    split_ifs <;> simp
  · exact (length_map _).trans_le (tileRuns_covers mask).1
  · intro runs hcall
    obtain ⟨htwo, ⟨hpair, -⟩, htight⟩ := hcall.tight
    obtain ⟨hlen, -⟩ | ⟨pre, a, b, post, rfl, hmerge⟩ := mergeSmallestGap_cases runs
    · omega
    · have hab := (pairwise_cons.1 (pairwise_append.1 hpair).2.1).1 b mem_cons_self
      exact ⟨pre, a, b, post, rfl, (htight a (by simp)).1, hab, (htight b (by simp)).1, hmerge⟩

end Ghostframe.X11
