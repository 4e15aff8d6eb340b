import Ghostframe.Lib.BitWords
import Ghostframe.Lib.ChangeLog

/-!
# Dirty tiles over several frames

Tile-granular dirty tracking of the client's framebuffer. Every publish seals the tiles
marked since the last one as a generation; the last `capacity` generations are kept.

* `DirtyGrid`: one bit per tile;
* `DirtyHistory`: the generations, oldest first;
* `Represents`: a history holds what a `ChangeLog` holds of the generations it still has;
* `unionSince_spec`: an answer of `union_since` is every tile sealed after the watermark,
  though older generations are gone.
-/

namespace Ghostframe.Gpu

open ChangeLog List

/-- One bit per tile. -/
structure DirtyGrid where
  cols : ℕ
  rows : ℕ
  words : List UInt64
  length_words : words.length = (cols * rows + 63) / 64

open DirtyGrid

namespace DirtyGrid

/-- `new`. -/
def new (cols rows : ℕ) : DirtyGrid :=
  ⟨cols, rows, List.replicate ((cols * rows + 63) / 64) 0, List.length_replicate⟩

variable (g : DirtyGrid)

/-- `bit_index`. -/
def bitIndex (tx ty : ℕ) : Option ℕ :=
  if g.cols ≤ tx ∨ g.rows ≤ ty then none else some (ty * g.cols + tx)

/-- `set`: a tile out of range is ignored. -/
def set (tx ty : ℕ) : DirtyGrid :=
  match g.bitIndex tx ty with
  | some bit =>
    { g with
      words := setWordsBit g.words bit
      length_words := (length_setWordsBit _ _).trans g.length_words }
  | none => g

/-- `get`. -/
def get (tx ty : ℕ) : Bool :=
  match g.bitIndex tx ty with
  | some bit => wordsBit g.words bit
  | none => false

/-- `union_with`: over the words both grids have. -/
def unionWith (g other : DirtyGrid) : DirtyGrid :=
  { g with
    words := orWords g.words other.words
    length_words := (length_orWords _ _).trans g.length_words }

/-- The grid has this shape. -/
def Shape (cols rows : ℕ) : Prop := g.cols = cols ∧ g.rows = rows

@[simp] theorem shape_new (cols rows : ℕ) : (new cols rows).Shape cols rows := ⟨rfl, rfl⟩

variable {g : DirtyGrid} {cols rows : ℕ}

theorem Shape.set (h : g.Shape cols rows) (tx ty : ℕ) : (g.set tx ty).Shape cols rows := by
  unfold DirtyGrid.set
  split
  · exact h
  · exact h

theorem Shape.unionWith (h : g.Shape cols rows) (other : DirtyGrid) :
    (g.unionWith other).Shape cols rows := h

@[simp] theorem get_new (cols rows tx ty : ℕ) : (new cols rows).get tx ty = false := by
  unfold get
  split
  · exact wordsBit_replicate_zero _ _
  · rfl

theorem get_eq_true {tx ty : ℕ} :
    g.get tx ty = true ↔
      (tx < g.cols ∧ ty < g.rows) ∧ wordsBit g.words (ty * g.cols + tx) = true := by
  by_cases hin : tx < g.cols ∧ ty < g.rows
  · rw [get, bitIndex, if_neg (by omega), and_iff_right hin]
  · rw [get, bitIndex, if_pos (by omega)]
    simp [hin]

/-- Setting a tile sets that tile. -/
theorem get_set (hshape : g.Shape cols rows) (tx ty x y : ℕ) :
    (g.set tx ty).get x y = true ↔
      g.get x y = true ∨ (x = tx ∧ y = ty ∧ tx < cols ∧ ty < rows) := by
  obtain ⟨rfl, rfl⟩ := hshape
  by_cases hin : tx < g.cols ∧ ty < g.rows
  · rw [set, bitIndex, if_neg (by omega), get_eq_true, get_eq_true]
    simp only [wordsBit_setCell g.length_words hin.1 hin.2, hin, and_self, and_true]
  · rw [set, bitIndex, if_pos (by omega)]
    simp only [hin, and_false, or_false]

theorem get_unionWith {other : DirtyGrid} (hg : g.Shape cols rows) (hother : other.Shape cols rows)
    (x y : ℕ) : (g.unionWith other).get x y = (g.get x y || other.get x y) := by
  obtain ⟨rfl, rfl⟩ := hg
  have hlen : g.words.length = other.words.length := by
    rw [g.length_words, other.length_words, hother.1, hother.2]
  have hidx : other.bitIndex x y = g.bitIndex x y := by
    simp only [bitIndex, hother.1, hother.2]
  have hidx' : (g.unionWith other).bitIndex x y = g.bitIndex x y := rfl
  simp only [get, hidx, hidx']
  split
  · exact wordsBit_orWords hlen _
  · rfl

end DirtyGrid

/-- A bounded ring of per-generation dirty maps. -/
structure DirtyHistory where
  cols : ℕ
  rows : ℕ
  capacity : ℕ
  current : DirtyGrid
  nextGen : ℕ
  sealed : List (ℕ × DirtyGrid)

namespace DirtyHistory

/-- `new`. -/
def new (cols rows capacity : ℕ) : DirtyHistory :=
  ⟨cols, rows, max capacity 1, .new cols rows, 0, []⟩

/-- `current_mut().set`. -/
def markTile (h : DirtyHistory) (tx ty : ℕ) : DirtyHistory :=
  { h with current := h.current.set tx ty }

/-- `advance`: the generation just sealed, and the history after it. -/
def advance (h : DirtyHistory) : ℕ × DirtyHistory :=
  let sealed := h.sealed ++ [(h.nextGen, h.current)]
  (h.nextGen,
    { h with
      current := .new h.cols h.rows
      nextGen := h.nextGen + 1
      sealed := if h.capacity < sealed.length then sealed.tail else sealed })

/-- `union_since`: `none` asks for a full blit. -/
def unionSince (h : DirtyHistory) (since : Option ℕ) : Option DirtyGrid :=
  match since with
  | none => none
  | some since =>
    if h.nextGen = 0 then none
    else
      let newestSealed := h.nextGen - 1
      if newestSealed ≤ since then some (.new h.cols h.rows)
      else
        let oldestRetained := (h.sealed.head?.map Prod.fst).getD newestSealed
        if since + 1 < oldestRetained then none
        else
          some <| h.sealed.foldl
            (fun result e => if since < e.1 then result.unionWith e.2 else result)
            (.new h.cols h.rows)

/-- `reset`. -/
def reset (h : DirtyHistory) (cols rows : ℕ) : DirtyHistory :=
  { h with cols, rows, current := .new cols rows, nextGen := 0, sealed := [] }

/-! ### What a history stands for -/

/-- The history holds the log's generation under way, and the last of its sealed ones. -/
structure Represents (h : DirtyHistory) (log : ChangeLog (ℕ × ℕ)) : Prop where
  next : log.next = h.nextGen
  current_shape : h.current.Shape h.cols h.rows
  current : ∀ x y, h.current.get x y = true ↔ (x, y) ∈ log.current
  capacity : 0 < h.capacity
  retained : 0 < h.nextGen → h.sealed ≠ []
  /-- consecutive generations, up to the newest -/
  gens : ∃ oldest, oldest + h.sealed.length = h.nextGen ∧
    h.sealed.map Prod.fst = List.range' oldest h.sealed.length
  grids : ∀ e ∈ h.sealed, e.2.Shape h.cols h.rows ∧
    ∀ x y, e.2.get x y = true ↔ (x, y) ∈ log.sealed e.1

theorem represents_fresh (h : DirtyHistory) (hcapacity : 0 < h.capacity)
    (hcurrent : h.current = .new h.cols h.rows) (hnext : h.nextGen = 0) (hsealed : h.sealed = []) :
    h.Represents .empty where
  next := hnext.symm
  current_shape := by rw [hcurrent]; exact shape_new _ _
  current x y := by rw [hcurrent]; simp [empty]
  capacity := hcapacity
  retained hpos := absurd hnext hpos.ne'
  gens := ⟨0, by simp [hnext, hsealed], by simp [hsealed]⟩
  grids e he := by rw [hsealed] at he; cases he

theorem represents_new (cols rows capacity : ℕ) : (new cols rows capacity).Represents .empty :=
  represents_fresh _ (by simp [new]) rfl rfl rfl

variable {h : DirtyHistory} {log : ChangeLog (ℕ × ℕ)}

theorem Represents.reset (hrep : h.Represents log) (cols rows : ℕ) :
    (h.reset cols rows).Represents .empty :=
  represents_fresh _ hrep.capacity rfl rfl rfl

theorem Represents.markTile (hrep : h.Represents log) (tx ty : ℕ) :
    (h.markTile tx ty).Represents
      (log.mark {t | t.1 = tx ∧ t.2 = ty ∧ tx < h.cols ∧ ty < h.rows}) where
  next := hrep.next
  current_shape := hrep.current_shape.set tx ty
  current x y := by
    refine (get_set hrep.current_shape tx ty x y).trans ?_
    exact or_congr_left (hrep.current x y)
  capacity := hrep.capacity
  retained := hrep.retained
  gens := hrep.gens
  grids := hrep.grids

theorem foldl_markTile_shape (h : DirtyHistory) (tiles : List (ℕ × ℕ)) :
    (tiles.foldl (fun h t => h.markTile t.1 t.2) h).cols = h.cols ∧
      (tiles.foldl (fun h t => h.markTile t.1 t.2) h).rows = h.rows := by
  induction tiles generalizing h with
  | nil => exact ⟨rfl, rfl⟩
  | cons tile tiles ih => exact ih _

/-- Marking tiles one after the other notes those of the grid. -/
theorem Represents.markTiles (hrep : h.Represents log) (tiles : List (ℕ × ℕ)) :
    (tiles.foldl (fun h t => h.markTile t.1 t.2) h).Represents
      (log.mark {t | t ∈ tiles ∧ t.1 < h.cols ∧ t.2 < h.rows}) := by
  induction tiles generalizing h log with
  | nil =>
    have hnone : log.mark {t | t ∈ ([] : List (ℕ × ℕ)) ∧ t.1 < h.cols ∧ t.2 < h.rows} = log := by
      simp [mark]
    rw [hnone]
    exact hrep
  | cons tile tiles ih =>
    have hrest := ih (hrep.markTile tile.1 tile.2)
    rw [mark_mark] at hrest
    have hset : {t : ℕ × ℕ | t.1 = tile.1 ∧ t.2 = tile.2 ∧ tile.1 < h.cols ∧ tile.2 < h.rows} ∪
        {t | t ∈ tiles ∧ t.1 < (h.markTile tile.1 tile.2).cols ∧
          t.2 < (h.markTile tile.1 tile.2).rows} =
        {t | t ∈ tile :: tiles ∧ t.1 < h.cols ∧ t.2 < h.rows} := by
      ext t
      simp only [Set.mem_union, Set.mem_ofPred_eq, mem_cons]
      constructor
      · rintro (⟨h1, h2, hc, hr⟩ | ⟨ht, hc, hr⟩)
        · exact ⟨.inl (Prod.ext h1 h2), h1 ▸ hc, h2 ▸ hr⟩
        · exact ⟨.inr ht, hc, hr⟩
      · rintro ⟨rfl | ht, hc, hr⟩
        · exact .inl ⟨rfl, rfl, hc, hr⟩
        · exact .inr ⟨ht, hc, hr⟩
    rw [hset] at hrest
    exact hrest

/-- Sealing, with or without the oldest generation dropped. -/
theorem Represents.advance (hrep : h.Represents log) : h.advance.2.Represents log.advance := by
  obtain ⟨oldest, hnewest, hgens⟩ := hrep.gens
  have hfst : (h.sealed ++ [(h.nextGen, h.current)]).map Prod.fst =
      range' oldest (h.sealed.length + 1) := by
    rw [map_append, hgens, range'_concat, Nat.one_mul, hnewest]
    rfl
  have hall : ∀ e ∈ h.sealed ++ [(h.nextGen, h.current)], e.2.Shape h.cols h.rows ∧
      ∀ x y, e.2.get x y = true ↔ (x, y) ∈ log.advance.sealed e.1 := by
    intro e he
    rcases mem_append.1 he with he | he
    · have hlt : e.1 < log.next := by
        have hmem : e.1 ∈ h.sealed.map Prod.fst := mem_map_of_mem he
        rw [hgens, mem_range'_1] at hmem
        rw [hrep.next]
        omega
      obtain ⟨hshape, hbits⟩ := hrep.grids e he
      refine ⟨hshape, fun x y => ?_⟩
      rw [hbits, advance_sealed_of_lt hlt]
    · obtain rfl := mem_singleton.1 he
      refine ⟨hrep.current_shape, fun x y => ?_⟩
      rw [hrep.current, ← hrep.next, advance_sealed_next]
  refine ⟨congrArg (· + 1) hrep.next, shape_new _ _, fun x y => ?_, hrep.capacity,
    fun _ => ?_, ?_, ?_⟩
  · simp [DirtyHistory.advance, ChangeLog.advance]
  · have := hrep.capacity
    simp only [DirtyHistory.advance]
    split_ifs with hfull
    · intro hnil
      have hlen := congrArg length hnil
      simp only [length_tail, length_append, length_singleton, length_nil]
        at hlen hfull
      omega
    · simp
  · simp only [DirtyHistory.advance]
    split_ifs with hfull
    · refine ⟨oldest + 1, ?_, ?_⟩
      · simp only [length_tail, length_append, length_singleton]
        omega
      · rw [map_tail, hfst, tail_range']
        simp
    · refine ⟨oldest, ?_, ?_⟩
      · simp only [length_append, length_singleton]
        omega
      · rw [hfst]
        simp
  · intro e he
    simp only [DirtyHistory.advance] at he
    split_ifs at he with hfull
    · exact hall e (mem_of_mem_tail he)
    · exact hall e he

theorem get_foldl_union {cols rows : ℕ} (since : ℕ) {sealed : List (ℕ × DirtyGrid)}
    (hshape : ∀ e ∈ sealed, e.2.Shape cols rows) {start : DirtyGrid}
    (hstart : start.Shape cols rows) :
    let result := sealed.foldl
      (fun result e => if since < e.1 then result.unionWith e.2 else result) start
    result.Shape cols rows ∧ ∀ x y, result.get x y = true ↔
      start.get x y = true ∨ ∃ e ∈ sealed, since < e.1 ∧ e.2.get x y = true := by
  induction sealed generalizing start with
  | nil => exact ⟨hstart, fun x y => by simp⟩
  | cons e sealed ih =>
    have hrest := fun e' he' => hshape e' (mem_cons_of_mem _ he')
    simp only [foldl_cons, exists_mem_cons_iff]
    by_cases hlt : since < e.1
    · obtain ⟨hresult, hbits⟩ := ih hrest (hstart.unionWith e.2)
      simp only [hlt, if_true, true_and]
      refine ⟨hresult, fun x y => ?_⟩
      rw [hbits, get_unionWith hstart (hshape e mem_cons_self), Bool.or_eq_true,
        or_assoc]
    · obtain ⟨hresult, hbits⟩ := ih hrest hstart
      simp only [hlt, if_false, false_and, false_or]
      exact ⟨hresult, hbits⟩

/-- An answer is exactly what was sealed after the watermark. -/
theorem Represents.unionSince_spec (hrep : h.Represents log) {since : ℕ} (hsince : since < log.next)
    {dirty : DirtyGrid} (hdirty : h.unionSince (some since) = some dirty) :
    dirty.Shape h.cols h.rows ∧
      ∀ x y, dirty.get x y = true ↔ (x, y) ∈ log.sealedSince since := by
  obtain ⟨oldest, hnewest, hgens⟩ := hrep.gens
  rw [hrep.next] at hsince
  simp only [unionSince, if_neg (show ¬ h.nextGen = 0 by omega)] at hdirty
  split_ifs at hdirty with hcovered hevicted
  · obtain rfl := Option.some.inj hdirty
    refine ⟨shape_new _ _, fun x y => ?_⟩
    simp only [get_new, Bool.false_eq_true, false_iff]
    rintro ⟨n, hlt, hn, -⟩
    rw [hrep.next] at hn
    omega
  · obtain rfl := Option.some.inj hdirty
    obtain ⟨hshape, hbits⟩ := get_foldl_union since
      (fun e he => (hrep.grids e he).1) (shape_new h.cols h.rows)
    refine ⟨hshape, fun x y => (hbits x y).trans ?_⟩
    simp only [get_new, Bool.false_eq_true, false_or]
    constructor
    · rintro ⟨e, he, hlt, hbit⟩
      have hmem : e.1 ∈ h.sealed.map Prod.fst := mem_map_of_mem he
      rw [hgens, mem_range'_1] at hmem
      exact ⟨e.1, hlt, by rw [hrep.next]; omega, ((hrep.grids e he).2 x y).1 hbit⟩
    · rintro ⟨n, hlt, hn, hmem⟩
      rw [hrep.next] at hn
      -- the oldest generation kept is at most the first one needed
      have holdest : oldest ≤ since + 1 := by
        cases hsealed : h.sealed with
        | nil => exact absurd hsealed (hrep.retained (by omega))
        | cons e rest =>
          rw [hsealed] at hgens hevicted
          simp only [map_cons, length_cons, range'_succ, List.cons.injEq] at hgens
          simp only [head?_cons, Option.map_some, Option.getD_some] at hevicted
          omega
      have hn' : n ∈ h.sealed.map Prod.fst := by
        rw [hgens, mem_range'_1]
        omega
      obtain ⟨e, he, rfl⟩ := mem_map.1 hn'
      exact ⟨e, he, hlt, ((hrep.grids e he).2 x y).2 hmem⟩

end DirtyHistory

end Ghostframe.Gpu
