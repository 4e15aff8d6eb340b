import Ghostframe.Capture.FrameDamage

/-!
# The bitmap of damaged tiles

`TileBitmap` of the X11 capture backend: one bit per tile of a screen whose exact pixel
size it remembers, since two screens can share a grid of tiles.

* `set`, `setRect`, `setRows`, `setAll`, `orWith`: the ways tiles are added, each with what
  it does to every tile (`get_set`, `get_setTiles`, `get_setAll`, `get_orWith`, …);
* `iter`: the set tiles in row-major order (`mem_iter`).
-/

namespace Ghostframe.X11

open List Nat

open Capture (tileSize tilesAlong TileBits FrameDamage)

/-- `TileBitmap`: `px` is the screen size in pixels it was built for. -/
structure TileBitmap where
  px : ℕ × ℕ
  bits : List UInt64
  length_bits : bits.length = (tilesAlong px.1 * tilesAlong px.2 + 63) / 64

namespace TileBitmap

variable (b : TileBitmap)

/-- `tiles_w`. -/
def tilesW : ℕ := tilesAlong b.px.1

/-- `tiles_h`. -/
def tilesH : ℕ := tilesAlong b.px.2

theorem length_cleared (width height : ℕ) :
    (List.replicate ((tilesAlong width * tilesAlong height + 63) / 64) (0 : UInt64)).length =
      (tilesAlong width * tilesAlong height + 63) / 64 :=
  length_replicate

/-- `new`. -/
def new (width height : ℕ) : TileBitmap :=
  ⟨(width, height), List.replicate ((tilesAlong width * tilesAlong height + 63) / 64) 0,
    length_cleared width height⟩

/-- `empty`: no grid. -/
def empty : TileBitmap := ⟨(0, 0), [], rfl⟩

/-- `clear`. -/
def clear : TileBitmap :=
  { b with
    bits := List.replicate b.bits.length 0
    length_bits := List.length_replicate.trans b.length_bits }

/-- `matches`: was it built for exactly this screen? -/
def matchesPx (width height : ℕ) : Bool := b.px == (width, height)

/-- `index`: no tile outside the grid has one. -/
def index (tx ty : ℕ) : Option ℕ :=
  if tx < b.tilesW ∧ ty < b.tilesH then some (ty * b.tilesW + tx) else none

/-- `get`. -/
def get (tx ty : ℕ) : Bool := (b.index tx ty).any (wordsBit b.bits)

/-- `set`: tiles outside the grid are ignored. -/
def set (tx ty : ℕ) : TileBitmap :=
  match b.index tx ty with
  | some i =>
    { b with
      bits := setWordsBit b.bits i
      length_bits := (length_setWordsBit _ _).trans b.length_bits }
  | none => b

/-- Mark the tiles of a list. -/
def setTiles (tiles : List (ℕ × ℕ)) : TileBitmap :=
  tiles.foldl (fun b t => b.set t.1 t.2) b

/-- The tiles of the columns `tx..txEnd` and the rows `ty..tyEnd`, row by row. -/
def tileBlock (tx txEnd ty tyEnd : ℕ) : List (ℕ × ℕ) :=
  (List.range' ty (tyEnd - ty)).flatMap fun ty =>
    (List.range' tx (txEnd - tx)).map fun tx => (tx, ty)

/-- `set_rect`: every tile a pixel rectangle touches. -/
def setRect (x y : Int16) (width height : UInt16) : TileBitmap :=
  -- a negative origin is clamped to 0
  let x := x.toInt.toNat
  let y := y.toInt.toNat
  let txEnd := min (tilesAlong (x + width.toNat)) b.tilesW
  let tyEnd := min (tilesAlong (y + height.toNat)) b.tilesH
  b.setTiles (tileBlock (x / tileSize) txEnd (y / tileSize) tyEnd)

/-- `set_all`: bits past the grid stay clear. -/
def setAll : TileBitmap :=
  let n := b.bits.length
  let used := b.tilesW * b.tilesH - (n - 1) * 64
  let full := List.replicate n ones64
  { b with
    bits := if used < 64 then full.set (n - 1) ((1 <<< UInt64.ofNat used) - 1) else full
    length_bits := by split_ifs <;> simp [full, n, b.length_bits] }

/-- The bits of word `wi` that lie in `start..stop`. -/
def rowsMask (start stop wi : ℕ) : UInt64 :=
  let lo := if wi = start / 64 then start % 64 else 0
  let hi := if wi = (stop - 1) / 64 then (stop - 1) % 64 + 1 else 64
  if hi - lo = 64 then ones64 else ((1 <<< UInt64.ofNat (hi - lo)) - 1) <<< UInt64.ofNat lo

/-- Or a mask into one word. -/
def orWord (wi : ℕ) (mask : UInt64) : TileBitmap :=
  { b with
    bits := b.bits.modify wi (· ||| mask)
    length_bits := (List.length_modify ..).trans b.length_bits }

/-- `set_rows`: the tile rows `lo..hi`, a range of bits filled word by word. -/
def setRows (lo hi : ℕ) : TileBitmap :=
  let hi := min hi b.tilesH
  let start := lo * b.tilesW
  let stop := hi * b.tilesW
  if hi ≤ lo then b
  else
    (List.range' (start / 64) ((stop - 1) / 64 + 1 - start / 64)).foldl
      (fun b wi => b.orWord wi (rowsMask start stop wi)) b

/-- `or_with`: a bitmap of another screen is ignored. -/
def orWith (b other : TileBitmap) : TileBitmap :=
  if b.px = other.px then
    { b with
      bits := orWords b.bits other.bits
      length_bits := (length_orWords _ _).trans b.length_bits }
  else b

/-- `is_empty`. -/
def isEmpty : Bool := b.bits.all (· == 0)

/-- `iter`: the set tiles in row-major order. -/
def iter : List (ℕ × ℕ) :=
  ((List.range (b.tilesW * b.tilesH)).filter (wordsBit b.bits)).map fun i =>
    (i % b.tilesW, i / b.tilesW)

/-! ### What each operation does to a tile -/

/-- The marked tiles. -/
def tiles : Set (ℕ × ℕ) := {t | b.get t.1 t.2 = true}

theorem mem_tiles {b : TileBitmap} {t : ℕ × ℕ} : t ∈ b.tiles ↔ b.get t.1 t.2 = true := Iff.rfl

theorem matchesPx_iff {b : TileBitmap} {width height : ℕ} :
    b.matchesPx width height = true ↔ b.px = (width, height) := by
  rw [matchesPx, beq_iff_eq]

variable (b : TileBitmap) {tx ty : ℕ}

theorem get_eq_true {b : TileBitmap} :
    b.get tx ty = true ↔
      (tx < b.tilesW ∧ ty < b.tilesH) ∧ wordsBit b.bits (ty * b.tilesW + tx) = true := by
  rw [get, index]
  split_ifs with h <;> simp [h]

/-- The index of a tile has a word. -/
theorem index_word {b : TileBitmap} (hx : tx < b.tilesW) (hy : ty < b.tilesH) :
    ty * b.tilesW + tx < b.tilesW * b.tilesH ∧
      (ty * b.tilesW + tx) / 64 < b.bits.length := by
  have hlt := rowMajor_lt hx hy
  refine ⟨hlt, ?_⟩
  rw [b.length_bits]
  change _ < (b.tilesW * b.tilesH + 63) / 64
  generalize b.tilesW * b.tilesH = n at hlt
  omega

@[simp] theorem get_clear (tx ty : ℕ) : b.clear.get tx ty = false := by
  rw [← Bool.not_eq_true, get_eq_true, clear, wordsBit_replicate_zero]
  simp

theorem set_px (tx ty : ℕ) : (b.set tx ty).px = b.px := by
  unfold set
  split <;> rfl

theorem get_set (tx ty x y : ℕ) :
    (b.set tx ty).get x y = true ↔
      b.get x y = true ∨ (x, y) = (tx, ty) ∧ tx < b.tilesW ∧ ty < b.tilesH := by
  by_cases hin : tx < b.tilesW ∧ ty < b.tilesH
  · rw [set, index, if_pos hin, get_eq_true, get_eq_true, Prod.mk.injEq]
    simp only [hin, and_self, and_true]
    exact wordsBit_setCell b.length_bits hin.1 hin.2
  · rw [set, index, if_neg hin]
    simp only [hin, and_false, or_false]

theorem setTiles_px (ts : List (ℕ × ℕ)) : (b.setTiles ts).px = b.px := by
  induction ts generalizing b with
  | nil => rfl
  | cons t ts ih => exact (ih (b.set t.1 t.2)).trans (b.set_px t.1 t.2)

theorem get_setTiles (ts : List (ℕ × ℕ)) (x y : ℕ) :
    (b.setTiles ts).get x y = true ↔
      b.get x y = true ∨ (x, y) ∈ ts ∧ x < b.tilesW ∧ y < b.tilesH := by
  induction ts generalizing b with
  | nil => simp [setTiles]
  | cons t ts ih =>
    have hcons : b.setTiles (t :: ts) = (b.set t.1 t.2).setTiles ts := rfl
    have hgrid : (b.set t.1 t.2).tilesW = b.tilesW ∧ (b.set t.1 t.2).tilesH = b.tilesH := by
      simp only [tilesW, tilesH, set_px, and_self]
    rw [hcons, ih, get_set, hgrid.1, hgrid.2, mem_cons]
    constructor
    · rintro ((hget | ⟨heq, hin⟩) | ⟨hmem, hin⟩)
      · exact .inl hget
      · obtain ⟨rfl, rfl⟩ := Prod.mk.inj heq
        exact .inr ⟨.inl rfl, hin⟩
      · exact .inr ⟨.inr hmem, hin⟩
    · rintro (hget | ⟨rfl | hmem, hin⟩)
      · exact .inl (.inl hget)
      · exact .inl (.inr ⟨rfl, hin⟩)
      · exact .inr ⟨hmem, hin⟩

theorem get_setAll {x y : ℕ} (hx : x < b.tilesW) (hy : y < b.tilesH) : b.setAll.get x y = true := by
  rw [get_eq_true]
  refine ⟨⟨hx, hy⟩, ?_⟩
  change wordsBit b.setAll.bits (y * b.tilesW + x) = true
  obtain ⟨hlt, hword⟩ := b.index_word hx hy
  generalize y * b.tilesW + x = i at hlt hword
  have hfull : (replicate b.bits.length ones64).getD (i / 64) 0 = ones64 := by
    rw [getD_eq_getElem?_getD, getElem?_replicate, if_pos hword, Option.getD_some]
  have hbit : i % 64 < 64 := mod_lt _ (by decide)
  rw [setAll, wordsBit]
  dsimp only
  split_ifs with hused
  · by_cases hlast : i / 64 = b.bits.length - 1
    · -- the word with the last tiles keeps its low bits only
      rw [← hlast, getD_eq_getElem?_getD, getElem?_set_self (by simpa using hword),
        Option.getD_some, bit64_one_shiftLeft_sub_one (hlast ▸ hused) hbit, decide_eq_true_iff]
      omega
    · rw [getD_eq_getElem?_getD, getElem?_set_ne (Ne.symm hlast),
        ← getD_eq_getElem?_getD, hfull, bit64_ones hbit]
  · rw [hfull, bit64_ones hbit]

theorem orWith_px (other : TileBitmap) : (b.orWith other).px = b.px := by
  unfold orWith
  split_ifs <;> rfl

theorem get_orWith {b other : TileBitmap} (h : b.px = other.px) (x y : ℕ) :
    (b.orWith other).get x y = (b.get x y || other.get x y) := by
  have hlen : b.bits.length = other.bits.length := by rw [b.length_bits, other.length_bits, h]
  have hgrid : other.tilesW = b.tilesW ∧ other.tilesH = b.tilesH := by
    simp only [tilesW, tilesH, h, and_self]
  rw [Bool.eq_iff_iff, Bool.or_eq_true, get_eq_true, get_eq_true, get_eq_true, hgrid.1, hgrid.2,
    ← and_or_left, orWith, if_pos h]
  change (x < b.tilesW ∧ y < b.tilesH) ∧
    wordsBit (orWords b.bits other.bits) (y * b.tilesW + x) = true ↔ _
  rw [wordsBit_orWords hlen, Bool.or_eq_true]

theorem foldl_orWord (mask : ℕ → UInt64) (words : List ℕ) :
    (words.foldl (fun b wi => b.orWord wi (mask wi)) b).px = b.px ∧
      ∀ x y, b.get x y = true →
        (words.foldl (fun b wi => b.orWord wi (mask wi)) b).get x y = true := by
  induction words generalizing b with
  | nil => exact ⟨rfl, fun _ _ h => h⟩
  | cons wi words ih =>
    obtain ⟨hpx, hget⟩ := ih (b.orWord wi (mask wi))
    refine ⟨hpx, fun x y h => hget x y ?_⟩
    rw [get_eq_true] at h ⊢
    exact ⟨h.1, wordsBit_modify_or h.2⟩

theorem setRows_px_get (lo hi : ℕ) :
    (b.setRows lo hi).px = b.px ∧
      ∀ x y, b.get x y = true → (b.setRows lo hi).get x y = true := by
  unfold setRows
  dsimp only
  split_ifs
  · exact ⟨rfl, fun _ _ h => h⟩
  · exact b.foldl_orWord _ _

theorem get_of_isEmpty {b : TileBitmap} (h : b.isEmpty = true) (x y : ℕ) : b.get x y = false := by
  rw [← Bool.not_eq_true, get_eq_true]
  rintro ⟨⟨hx, hy⟩, hbit⟩
  have hzero : b.bits.getD ((y * b.tilesW + x) / 64) 0 = 0 := by
    rw [getD_eq_getElem?_getD, getElem?_eq_getElem (b.index_word hx hy).2,
      Option.getD_some]
    exact beq_iff_eq.1 (all_eq_true.1 h _ (getElem_mem _))
  rw [wordsBit, hzero, bit64_zero] at hbit
  cases hbit

theorem mem_iter {b : TileBitmap} : (tx, ty) ∈ b.iter ↔ b.get tx ty = true := by
  rw [get_eq_true]
  simp only [iter, mem_map, mem_filter, mem_range, Prod.mk.injEq]
  constructor
  · rintro ⟨i, ⟨hi, hbit⟩, rfl, rfl⟩
    have hw : 0 < b.tilesW := pos_of_ne_zero fun h0 => by simp [h0] at hi
    refine ⟨⟨Nat.mod_lt _ hw, Nat.div_lt_of_lt_mul hi⟩, ?_⟩
    rw [div_add_mod']
    exact hbit
  · rintro ⟨⟨hx, hy⟩, hbit⟩
    refine ⟨ty * b.tilesW + tx, ⟨(b.index_word hx hy).1, hbit⟩, ?_, ?_⟩
    · rw [mul_add_mod', mod_eq_of_lt hx]
    · rw [mul_comm, mul_add_div (by omega), div_eq_of_lt hx, add_zero]

theorem iter_rows : b.iter.Pairwise fun s t => s.2 ≤ t.2 := by
  refine pairwise_map.2 ?_
  exact (List.pairwise_lt_range.filter _).imp fun h => Nat.div_le_div_right h.le

/-! ### Rectangles of pixels -/

/-- The tile of a pixel. -/
def tileOf (p : ℕ × ℕ) : ℕ × ℕ := (p.1 / tileSize, p.2 / tileSize)

theorem div_tileSize_lt {p n : ℕ} (h : p < n) : p / tileSize < tilesAlong n := by
  unfold tilesAlong tileSize
  omega

theorem mem_tileBlock {txEnd tyEnd : ℕ} {t : ℕ × ℕ} :
    t ∈ tileBlock tx txEnd ty tyEnd ↔ (tx ≤ t.1 ∧ t.1 < txEnd) ∧ ty ≤ t.2 ∧ t.2 < tyEnd := by
  obtain ⟨x, y⟩ := t
  simp only [tileBlock, mem_flatMap, mem_map, mem_range'_1, Prod.mk.injEq]
  constructor
  · rintro ⟨y', hy, x', hx, rfl, rfl⟩
    omega
  · intro h
    exact ⟨y, by omega, x, by omega, rfl, rfl⟩

theorem setRect_px (x y : Int16) (width height : UInt16) : (b.setRect x y width height).px = b.px :=
  b.setTiles_px _

theorem get_setRect_of_get {b : TileBitmap} (x y : Int16) (width height : UInt16)
    (h : b.get tx ty = true) : (b.setRect x y width height).get tx ty = true :=
  (b.get_setTiles _ tx ty).2 (.inl h)

/-- `set_rect` marks the tile of every pixel of the rectangle. -/
theorem get_setRect {b : TileBitmap} {x y : Int16} {width height : UInt16} {p : ℕ × ℕ}
    (hscreen : p.1 < b.px.1 ∧ p.2 < b.px.2)
    (hx : x.toInt.toNat ≤ p.1 ∧ p.1 < x.toInt.toNat + width.toNat)
    (hy : y.toInt.toNat ≤ p.2 ∧ p.2 < y.toInt.toNat + height.toNat) :
    tileOf p ∈ (b.setRect x y width height).tiles := by
  refine (b.get_setTiles _ _ _).2 (.inr ⟨mem_tileBlock.2 ⟨⟨?_, ?_⟩, ?_, ?_⟩,
    div_tileSize_lt hscreen.1, div_tileSize_lt hscreen.2⟩)
  · exact Nat.div_le_div_right hx.1
  · exact lt_min (div_tileSize_lt hx.2) (div_tileSize_lt hscreen.1)
  · exact Nat.div_le_div_right hy.1
  · exact lt_min (div_tileSize_lt hy.2) (div_tileSize_lt hscreen.2)

end TileBitmap

end Ghostframe.X11
