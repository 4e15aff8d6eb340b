import Ghostframe.Lib.BitWords
import Ghostframe.Lib.Runs

/-!
# What a producer says changed

A frame comes with `FrameDamage`: nothing is known, or the tiles that were damaged
(`hint`) and the tiles refreshed as a check (`verify`). The rows of tiles with either
are uploaded and compared.

* `TileBits`: one bit per tile, row-major;
* `uploadRuns`: the rows to upload, as maximal runs (`mem_uploadRuns`: exactly the rows
  with a tile of the hint or the check);
* `mergeRuns`: at most so many runs, which still cover every row (`inRuns_mergeRuns`).
-/

namespace Ghostframe.Capture

open List

/-- `TILE_SIZE`. -/
def tileSize : ℕ := 32

/-- Tiles along `n` pixels. -/
def tilesAlong (n : ℕ) : ℕ := (n + (tileSize - 1)) / tileSize

/-- One bit per tile of a grid, row-major. -/
structure TileBits where
  cols : ℕ
  rows : ℕ
  words : List UInt64
  length_words : words.length = (cols * rows + 63) / 64

namespace TileBits

/-- `from_words`. -/
def fromWords (width height : ℕ) (words : List UInt64) : Option TileBits :=
  if h : words.length = (tilesAlong width * tilesAlong height + 63) / 64 then
    some ⟨tilesAlong width, tilesAlong height, words, h⟩
  else none

/-- `get`. -/
def get (b : TileBits) (index : ℕ) : Bool := wordsBit b.words index

/-- `set`. -/
def set (b : TileBits) (index : ℕ) : TileBits :=
  { b with
    words := setWordsBit b.words index
    length_words := (length_setWordsBit _ _).trans b.length_words }

/-- `new`: no tile of a `width` × `height` frame. -/
def new (width height : ℕ) : TileBits :=
  ⟨tilesAlong width, tilesAlong height,
    List.replicate ((tilesAlong width * tilesAlong height + 63) / 64) 0, List.length_replicate⟩

end TileBits

/-- What is known about the pixels that changed since the frame before. -/
inductive FrameDamage
  | unknown
  | tiles (hint verify : TileBits)

/-- A run of tile rows: the first, and how many. -/
abbrev RowRun := IndexRun

/-- The bits of word `i` that lie in `lo..hi`. -/
def rangeMask (lo hi i : ℕ) : UInt64 :=
  (if i = lo / 64 then ones64 <<< UInt64.ofNat (lo % 64) else ones64) &&&
    if i = (hi - 1) / 64 then ones64 >>> UInt64.ofNat (63 - (hi - 1) % 64) else ones64

/-- `any_bit`: is a bit in `lo..hi` set? -/
def anyBit (words : List UInt64) (lo hi : ℕ) : Bool :=
  (List.range' (lo / 64) ((hi - 1) / 64 + 1 - lo / 64)).any fun i =>
    words.getD i 0 &&& rangeMask lo hi i != 0

/-- `upload_runs`: `none` asks for the whole frame. -/
def FrameDamage.uploadRuns (d : FrameDamage) (width height : ℕ) : Option (List RowRun) :=
  match d with
  | .unknown => none
  | .tiles hint verify =>
    let cols := tilesAlong width
    let rows := tilesAlong height
    if [hint, verify].any fun b => b.cols != cols || b.rows != rows then none
    else
      some <| (List.range rows).foldl
        (fun runs r =>
          if anyBit hint.words (r * cols) ((r + 1) * cols) ||
              anyBit verify.words (r * cols) ((r + 1) * cols) then pushIndex runs r
          else runs)
        []

variable (runs : List RowRun)

/-- The gap after run `i`. -/
def gapAfter (i : ℕ) : ℕ :=
  (runs.getD (i + 1) (0, 0)).1 - ((runs.getD i (0, 0)).1 + (runs.getD i (0, 0)).2)

/-- Join run `i` and the one after it. -/
def joinAt (i : ℕ) : List RowRun :=
  let first := runs.getD i (0, 0)
  let next := runs.getD (i + 1) (0, 0)
  runs.take i ++ (first.1, next.1 + next.2 - first.1) :: runs.drop (i + 2)

/-- Join the neighbours with the smallest gap between them. -/
def joinSmallest : List RowRun :=
  match (List.range (runs.length - 1)).argmin (gapAfter runs) with
  | some i => joinAt runs i
  | none => runs

/-- `merge_runs`: each pass joins two runs, until at most `limit` are left. -/
def mergeRuns (limit : ℕ) : List RowRun :=
  joinSmallest^[runs.length - max limit 1] runs

/-! ### Which rows are uploaded -/

theorem bit64_rangeMask {lo hi i k : ℕ} (hk : k < 64) :
    bit64 (rangeMask lo hi i) k = true ↔
      (i = lo / 64 → lo % 64 ≤ k) ∧ (i = (hi - 1) / 64 → k ≤ (hi - 1) % 64) := by
  have hlow : bit64 (if i = lo / 64 then ones64 <<< UInt64.ofNat (lo % 64) else ones64) k = true ↔
      (i = lo / 64 → lo % 64 ≤ k) := by
    split_ifs with h
    · rw [bit64_ones_shiftLeft (Nat.mod_lt _ (by decide)) hk]
      simp [h]
    · simp [bit64_ones hk, h]
  have hhigh : bit64 (if i = (hi - 1) / 64 then ones64 >>> UInt64.ofNat (63 - (hi - 1) % 64)
      else ones64) k = true ↔ (i = (hi - 1) / 64 → k ≤ (hi - 1) % 64) := by
    split_ifs with h
    · rw [bit64_ones_shiftRight (by omega) hk, decide_eq_true_iff]
      omega
    · simp [bit64_ones hk, h]
  rw [rangeMask, bit64_and _ _ hk, Bool.and_eq_true, hlow, hhigh]

theorem anyBit_iff {words : List UInt64} {lo hi : ℕ} (h : lo < hi) :
    anyBit words lo hi = true ↔ ∃ i, lo ≤ i ∧ i < hi ∧ wordsBit words i = true := by
  unfold anyBit
  simp only [any_eq_true, mem_range'_1, bne_iff_ne, and_ne_zero_iff]
  constructor
  · rintro ⟨w, hw, k, hk, hbit, hmask⟩
    obtain ⟨hlow, hhigh⟩ := (bit64_rangeMask hk).1 hmask
    have hdiv : (64 * w + k) / 64 = w := by omega
    have hmod : (64 * w + k) % 64 = k := by omega
    refine ⟨64 * w + k, ?_, ?_, ?_⟩
    · rcases eq_or_lt_of_le hw.1 with heq | hlt
      · omega
      · omega
    · rcases eq_or_ne w ((hi - 1) / 64) with heq | hne
      · omega
      · omega
    · rw [wordsBit, hdiv, hmod]
      exact hbit
  · rintro ⟨i, hlo, hhi, hbit⟩
    refine ⟨i / 64, by omega, i % 64, Nat.mod_lt _ (by decide), hbit, ?_⟩
    refine (bit64_rangeMask (Nat.mod_lt _ (by decide))).2 ⟨fun heq => ?_, fun heq => ?_⟩ <;> omega

theorem tilesAlong_pos {n : ℕ} (h : 0 < n) : 0 < tilesAlong n := by
  unfold tilesAlong tileSize
  omega

variable {runs : List RowRun}

/-- The uploaded rows are those with a tile of the hint or of the check. -/
theorem mem_uploadRuns {hint verify : TileBits} {width height : ℕ} (hwidth : 0 < width)
    (h : (FrameDamage.tiles hint verify).uploadRuns width height = some runs) :
    OrderedRuns runs ∧ ∀ row, InRuns runs row ↔ row < tilesAlong height ∧
      ∃ i, row * tilesAlong width ≤ i ∧ i < (row + 1) * tilesAlong width ∧
        (hint.get i = true ∨ verify.get i = true) := by
  have hcols := tilesAlong_pos hwidth
  simp only [FrameDamage.uploadRuns] at h
  split_ifs at h
  obtain rfl := Option.some.inj h
  obtain ⟨hordered, -, hrows⟩ := foldl_pushIndex (fun r =>
    anyBit hint.words (r * tilesAlong width) ((r + 1) * tilesAlong width) ||
      anyBit verify.words (r * tilesAlong width) ((r + 1) * tilesAlong width)) (tilesAlong height)
  refine ⟨hordered, fun row => (hrows row).trans (and_congr_right fun _ => ?_)⟩
  have hlt : row * tilesAlong width < (row + 1) * tilesAlong width :=
    (Nat.mul_lt_mul_right hcols).2 (Nat.lt_succ_self row)
  rw [Bool.or_eq_true, anyBit_iff hlt, anyBit_iff hlt, ← exists_or]
  refine exists_congr fun i => ?_
  tauto

/-! ### Merged runs cover the same rows -/

theorem exists_split {i : ℕ} (h : i + 1 < runs.length) :
    ∃ a b, runs = runs.take i ++ a :: b :: runs.drop (i + 2) ∧ runs.getD i (0, 0) = a ∧
      runs.getD (i + 1) (0, 0) = b := by
  refine ⟨runs[i], runs[i + 1], ?_, ?_, ?_⟩
  · rw [cons_getElem_drop_succ, cons_getElem_drop_succ, take_append_drop]
  · exact getD_eq_getElem _ _ (by omega)
  · exact getD_eq_getElem _ _ h

theorem joinAt_covers (hordered : OrderedRuns runs) {i : ℕ}
    (h : i + 1 < runs.length) :
    OrderedRuns (joinAt runs i) ∧ ∀ row, InRuns runs row → InRuns (joinAt runs i) row := by
  obtain ⟨a, b, heq, ha, hb⟩ := exists_split h
  have hjoin : joinAt runs i = runs.take i ++ (a.1, b.1 + b.2 - a.1) :: runs.drop (i + 2) := by
    rw [joinAt, ha, hb]
  rw [hjoin]
  generalize runs.take i = before at heq ⊢
  generalize runs.drop (i + 2) = after at heq ⊢
  subst heq
  obtain ⟨hbefore, hrest, hacross⟩ := pairwise_append.1 hordered
  obtain ⟨hafter, hrest⟩ := pairwise_cons.1 hrest
  obtain ⟨hlast, hlater⟩ := pairwise_cons.1 hrest
  have hab := hafter b mem_cons_self
  constructor
  · refine pairwise_append.2 ⟨hbefore, pairwise_cons.2 ⟨fun c hc => ?_, hlater⟩,
      fun c hc d hd => ?_⟩
    · have := hlast c hc
      omega
    · rcases mem_cons.1 hd with rfl | hd
      · exact hacross c hc a mem_cons_self
      · exact hacross c hc d (mem_cons_of_mem _ (mem_cons_of_mem _ hd))
  · rintro row ⟨run, hrun, hrow⟩
    simp only [mem_append, mem_cons] at hrun
    rcases hrun with hrun | rfl | rfl | hrun
    · exact ⟨run, mem_append_left _ hrun, hrow⟩
    · exact ⟨_, mem_append_right _ mem_cons_self, by omega⟩
    · exact ⟨_, mem_append_right _ mem_cons_self, by omega⟩
    · exact ⟨run, mem_append_right _ (mem_cons_of_mem _ hrun), hrow⟩

theorem joinSmallest_covers (hordered : OrderedRuns runs) :
    OrderedRuns (joinSmallest runs) ∧ ∀ row, InRuns runs row → InRuns (joinSmallest runs) row := by
  unfold joinSmallest
  rcases Option.eq_none_or_eq_some ((range (runs.length - 1)).argmin (gapAfter runs)) with
    hnone | ⟨i, hi⟩
  · rw [hnone]
    exact ⟨hordered, fun _ h => h⟩
  · rw [hi]
    have hlt : i < runs.length - 1 := mem_range.1 (argmin_mem hi)
    exact joinAt_covers hordered (by omega)

/-- Merging runs leaves no row out. -/
theorem inRuns_mergeRuns (hordered : OrderedRuns runs) (limit : ℕ) {row : ℕ}
    (h : InRuns runs row) : InRuns (mergeRuns runs limit) row := by
  unfold mergeRuns
  generalize runs.length - max limit 1 = n
  induction n generalizing runs with
  | zero => exact h
  | succ n ih =>
    obtain ⟨hordered', hcovers⟩ := joinSmallest_covers hordered
    exact ih hordered' (hcovers row h)

end Ghostframe.Capture
