import Ghostframe.Capture.FrameProcessor
import Ghostframe.X11.TileBitmap

/-!
# The pointer image

X keeps the pointer out of the root image, so the capture blends it into every frame.

* `CursorRect`, `cursorTilesInto`: the tiles under a pointer image
  (`cursorTilesInto_covers`: every pixel of the screen it touches lies in one of them);
* `blitCursor`: the blend (`withCursor_of_not_under`: it leaves all other pixels alone);
* `Composited`: what a pixel with the pointer over it is (`composited_withCursor`: what the blend
  makes of it).
-/

namespace Ghostframe.X11

open TileBitmap

open Capture (tileSize tilesAlong Pixel)
open TileBitmap (tileOf)

/-- `GetCursorImageReply`: where the pointer is, its hot spot, its image and the serial that
names the image. -/
structure CursorReply where
  x : Int16
  y : Int16
  width : UInt16
  height : UInt16
  xhot : UInt16
  yhot : UInt16
  cursorSerial : UInt32
  cursorImage : List UInt32
  deriving DecidableEq

/-- A pointer image's rectangle in root coordinates. -/
structure CursorRect where
  x : ℤ
  y : ℤ
  w : ℕ
  h : ℕ
  deriving DecidableEq

open CursorRect

/-- `CursorRect::of`. -/
def CursorRect.of (c : CursorReply) : CursorRect where
  x := c.x.toInt - c.xhot.toNat
  y := c.y.toInt - c.yhot.toNat
  w := c.width.toNat
  h := c.height.toNat

/-- `cursor_tiles_into`: the tiles under the rectangle, clipped to the bitmap's screen. -/
def cursorTilesInto (out : TileBitmap) (r : CursorRect) : TileBitmap :=
  let x0 := (max r.x 0).toNat
  let y0 := (max r.y 0).toNat
  let x1 := (max 0 (min (r.x + r.w) out.px.1)).toNat
  let y1 := (max 0 (min (r.y + r.h) out.px.2)).toNat
  if x0 < x1 ∧ y0 < y1 then
    out.setRect (Int16.ofNat x0) (Int16.ofNat y0) (UInt16.ofNat (x1 - x0)) (UInt16.ofNat (y1 - y0))
  else out

/-- `cursor_dirty_tiles`: the tiles under the previous and the current rectangle. -/
def cursorDirtyTiles (prev cur : Option CursorRect) (width height : ℕ) : List (ℕ × ℕ) :=
  let out := (prev.toList ++ cur.toList).foldl cursorTilesInto (TileBitmap.new width height)
  out.iter.insertionSort fun s t => s.1 < t.1 ∨ s.1 = t.1 ∧ s.2 ≤ t.2

/-- One colour channel: a premultiplied source over the target. -/
def blendOver (src inv : ℕ) (dst : UInt8) : UInt8 :=
  UInt8.ofNat (min (src + (dst.toNat * inv + 127) / 255) 255)

/-- A premultiplied ARGB pixel over the target; a transparent one leaves it alone. -/
def blendArgb (argb : UInt32) (dst : Pixel) : Pixel :=
  let a := ((argb >>> 24) &&& 0xff).toNat
  if a = 0 then dst
  else
    { b := blendOver (argb &&& 0xff).toNat (255 - a) dst.b
      g := blendOver ((argb >>> 8) &&& 0xff).toNat (255 - a) dst.g
      r := blendOver ((argb >>> 16) &&& 0xff).toNat (255 - a) dst.r
      a := 0xff }

/-- A picture: its pixels by column and row. -/
abbrev Picture := ℕ × ℕ → Pixel

/-- Does the rectangle hold this pixel? -/
def CursorRect.Holds (r : CursorRect) (p : ℕ × ℕ) : Prop :=
  (r.x ≤ p.1 ∧ p.1 < r.x + r.w) ∧ r.y ≤ p.2 ∧ p.2 < r.y + r.h

instance (r : CursorRect) (p : ℕ × ℕ) : Decidable (r.Holds p) :=
  inferInstanceAs (Decidable ((r.x ≤ p.1 ∧ p.1 < r.x + r.w) ∧ r.y ≤ p.2 ∧ p.2 < r.y + r.h))

/-- `blit_cursor`: every pixel of the target under the image is blended once. -/
def blitCursor (target : Picture) (width height : ℕ) (c : CursorReply) : Picture := fun p =>
  let r := CursorRect.of c
  if (p.1 < width ∧ p.2 < height) ∧ r.Holds p then
    let srcIdx := (p.2 - r.y).toNat * r.w + (p.1 - r.x).toNat
    match c.cursorImage[srcIdx]? with
    | some argb => blendArgb argb (target p)
    | none => target p
  else target p

/-- The target with the pointer, if there is one. -/
def withCursor (c : Option CursorReply) (width height : ℕ) (target : Picture) : Picture :=
  match c with
  | some c => blitCursor target width height c
  | none => target

/-! ### The tiles under the pointer -/

theorem cursorTilesInto_px (out : TileBitmap) (r : CursorRect) :
    (cursorTilesInto out r).px = out.px := by
  unfold cursorTilesInto
  dsimp only
  split_ifs
  · exact out.setRect_px _ _ _ _
  · rfl

theorem tiles_subset_cursorTilesInto (out : TileBitmap) (r : CursorRect) :
    out.tiles ⊆ (cursorTilesInto out r).tiles := by
  intro t ht
  unfold cursorTilesInto
  dsimp only
  split_ifs
  · exact get_setRect_of_get _ _ _ _ ht
  · exact ht

/-- One axis of the clipped rectangle: nothing wraps in the 16-bit arguments of `setRect`. -/
theorem clipped_axis {lo : ℤ} {len n p : ℕ} (hlo : lo < 2 ^ 15) (hn : n < 2 ^ 16) (hp : p < n)
    (hin : lo ≤ p ∧ p < lo + len) :
    let x0 := (max lo 0).toNat
    let x1 := (max 0 (min (lo + len) n)).toNat
    x0 < x1 ∧ (Int16.ofNat x0).toInt.toNat ≤ p ∧
      p < (Int16.ofNat x0).toInt.toNat + (UInt16.ofNat (x1 - x0)).toNat := by
  intro x0 x1
  have hx0 : x0 < 2 ^ 15 := by omega
  rw [Int16.toInt_ofNat_of_lt hx0, Int.toNat_natCast,
    UInt16.toNat_ofNat_of_lt' (by simp only [UInt16.size]; omega)]
  omega

variable {p : ℕ × ℕ}

/-- Every pixel of the screen under the image lies in a marked tile. -/
theorem cursorTilesInto_covers {out : TileBitmap} {c : CursorReply}
    (hpx : out.px.1 < 2 ^ 16 ∧ out.px.2 < 2 ^ 16) (hscreen : p.1 < out.px.1 ∧ p.2 < out.px.2)
    (hp : (of c).Holds p) :
    tileOf p ∈ (cursorTilesInto out (of c)).tiles := by
  have hx : (of c).x < 2 ^ 15 := by
    have := c.x.toInt_lt
    simp only [of]
    omega
  have hy : (of c).y < 2 ^ 15 := by
    have := c.y.toInt_lt
    simp only [of]
    omega
  obtain ⟨hx01, hxlo, hxhi⟩ := clipped_axis hx hpx.1 hscreen.1 hp.1
  obtain ⟨hy01, hylo, hyhi⟩ := clipped_axis hy hpx.2 hscreen.2 hp.2
  unfold cursorTilesInto
  rw [if_pos ⟨hx01, hy01⟩]
  exact get_setRect hscreen ⟨hxlo, hxhi⟩ ⟨hylo, hyhi⟩

variable {width height : ℕ}

theorem mem_cursorDirtyTiles {prev cur : Option CursorRect} {t : ℕ × ℕ} :
    t ∈ cursorDirtyTiles prev cur width height ↔
      t ∈ ((prev.toList ++ cur.toList).foldl cursorTilesInto (new width height)).tiles := by
  rw [cursorDirtyTiles, List.mem_insertionSort]
  exact mem_iter

theorem foldl_cursorTilesInto (rects : List CursorRect) (out : TileBitmap) :
    (rects.foldl cursorTilesInto out).px = out.px ∧
      out.tiles ⊆ (rects.foldl cursorTilesInto out).tiles := by
  induction rects generalizing out with
  | nil => exact ⟨rfl, subset_rfl⟩
  | cons r rects ih =>
    obtain ⟨hpx, htiles⟩ := ih (cursorTilesInto out r)
    exact ⟨hpx.trans (cursorTilesInto_px out r),
      (tiles_subset_cursorTilesInto out r).trans htiles⟩

/-- The dirty tiles of a pointer change hold both images. -/
theorem cursorDirtyTiles_covers {prev cur : Option CursorReply}
    (hpx : width < 2 ^ 16 ∧ height < 2 ^ 16) (hscreen : p.1 < width ∧ p.2 < height)
    {c : CursorReply} (hc : c ∈ prev ∨ c ∈ cur) (hp : (of c).Holds p) :
    tileOf p ∈ cursorDirtyTiles (prev.map .of) (cur.map .of) width height := by
  rw [mem_cursorDirtyTiles]
  have hmem : of c ∈ (prev.map of).toList ++ (cur.map of).toList := by
    rw [List.mem_append, Option.mem_toList, Option.mem_toList]
    exact hc.imp (Option.mem_map_of_mem _) (Option.mem_map_of_mem _)
  obtain ⟨before, after, hsplit⟩ := List.append_of_mem hmem
  rw [hsplit, List.foldl_append, List.foldl_cons]
  obtain ⟨hbefore, -⟩ := foldl_cursorTilesInto before (new width height)
  refine (foldl_cursorTilesInto after _).2 (cursorTilesInto_covers ?_ ?_ hp)
  · rw [hbefore]
    exact hpx
  · rw [hbefore]
    exact hscreen

/-! ### The blend -/

/-- The pixels the pointer may change. -/
def Under (c : Option CursorReply) (p : ℕ × ℕ) : Prop := ∃ r ∈ c, (CursorRect.of r).Holds p

theorem withCursor_of_not_under {c : Option CursorReply} (h : ¬ Under c p)
    (width height : ℕ) (target : Picture) : withCursor c width height target p = target p := by
  cases c with
  | none => rfl
  | some c =>
    have hout : ¬ (of c).Holds p := fun hp => h ⟨c, rfl, hp⟩
    rw [withCursor, blitCursor, if_neg fun hin => hout hin.2]

theorem withCursor_congr {c : Option CursorReply} {s t : Picture}
    (h : s p = t p) : withCursor c width height s p = withCursor c width height t p := by
  cases c with
  | none => exact h
  | some c => simp only [withCursor, blitCursor, h]

/-! ### What the blend is for -/

/-- The pointer image has the pixel `argb` at `p`: its hot spot is at the pointer. -/
def CursorReply.PixelAt (c : CursorReply) (p : ℕ × ℕ) (argb : UInt32) : Prop :=
  ∃ col < c.width.toNat, ∃ row < c.height.toNat,
    (p.1 : ℤ) = c.x.toInt - c.xhot.toNat + col ∧ (p.2 : ℤ) = c.y.toInt - c.yhot.toNat + row ∧
      c.cursorImage[row * c.width.toNat + col]? = some argb

/-- A premultiplied channel over another: the source, and what its alpha lets through of the
target, to the nearest integer and at most 255. -/
def ChannelOver (src alpha : ℕ) (dst out : UInt8) : Prop :=
  ∃ k, 255 * k ≤ dst.toNat * (255 - alpha) + 127 ∧ dst.toNat * (255 - alpha) ≤ 255 * k + 127 ∧
    out.toNat = min (src + k) 255

/-- The byte number `i` of a word, the lowest being number 0. -/
def byteOf (argb : UInt32) (i : ℕ) : ℕ := argb.toNat / 256 ^ i % 256

/-- `out` is `dst` with the premultiplied pixel `argb` over it, once. -/
structure SourceOver (argb : UInt32) (dst out : Pixel) : Prop where
  clear : byteOf argb 3 = 0 → out = dst
  solid : byteOf argb 3 = 255 →
    out = ⟨.ofNat (byteOf argb 0), .ofNat (byteOf argb 1), .ofNat (byteOf argb 2), 255⟩
  mixed : byteOf argb 3 ≠ 0 →
    ChannelOver (byteOf argb 0) (byteOf argb 3) dst.b out.b ∧
      ChannelOver (byteOf argb 1) (byteOf argb 3) dst.g out.g ∧
      ChannelOver (byteOf argb 2) (byteOf argb 3) dst.r out.r ∧ out.a = 255

/-- The pixel `out` at `p` is `dst` with the pointer over it, if it has a pixel there. -/
structure Composited (cursor : Option CursorReply) (p : ℕ × ℕ) (dst out : Pixel) : Prop where
  away : (∀ c ∈ cursor, ∀ argb, ¬ c.PixelAt p argb) → out = dst
  blended : ∀ c ∈ cursor, ∀ argb, c.PixelAt p argb → SourceOver argb dst out

theorem channelOver_blendOver (src alpha : ℕ) (dst : UInt8) :
    ChannelOver src alpha dst (blendOver src (255 - alpha) dst) := by
  refine ⟨(dst.toNat * (255 - alpha) + 127) / 255, by omega, by omega, ?_⟩
  rw [blendOver, UInt8.toNat_ofNat_of_lt' (by simp only [UInt8.size]; omega)]

/-- The channels of a pixel are the bytes of its word. -/
theorem blendArgb_eq (argb : UInt32) (dst : Pixel) :
    blendArgb argb dst =
      if byteOf argb 3 = 0 then dst
      else
        { b := blendOver (byteOf argb 0) (255 - byteOf argb 3) dst.b
          g := blendOver (byteOf argb 1) (255 - byteOf argb 3) dst.g
          r := blendOver (byteOf argb 2) (255 - byteOf argb 3) dst.r
          a := 0xff } := by
  have hbyte : ∀ n : UInt32, (n &&& 0xff).toNat = n.toNat % 256 := fun n => by
    rw [UInt32.toNat_and]
    exact Nat.and_two_pow_sub_one_eq_mod n.toNat 8
  have hshift : ∀ n : UInt32, (argb >>> n).toNat = argb.toNat / 2 ^ (n.toNat % 32) := fun n => by
    rw [UInt32.toNat_shiftRight, Nat.shiftRight_eq_div_pow]
  simp only [blendArgb, hbyte, hshift]
  simp [byteOf]

theorem sourceOver_blendArgb (argb : UInt32) (dst : Pixel) :
    SourceOver argb dst (blendArgb argb dst) := by
  rw [blendArgb_eq]
  refine ⟨fun h => if_pos h, fun h => ?_, fun h => ?_⟩
  · have hfull : ∀ i dst, blendOver (byteOf argb i) (255 - 255) dst = .ofNat (byteOf argb i) := by
      intro i dst
      have hlt : byteOf argb i < 256 := Nat.mod_lt _ (by decide)
      rw [blendOver, Nat.sub_self, Nat.mul_zero, Nat.zero_add, Nat.div_eq_of_lt (by decide),
        Nat.add_zero, min_eq_left (by omega)]
    rw [if_neg (by omega), h, hfull, hfull, hfull]
  · rw [if_neg h]
    exact ⟨channelOver_blendOver _ _ _, channelOver_blendOver _ _ _, channelOver_blendOver _ _ _,
      rfl⟩

/-- The blend puts the pointer over every pixel of the target. -/
theorem composited_withCursor {cursor : Option CursorReply}
    (hx : p.1 < width) (hy : p.2 < height) {target : Picture} {out : Pixel}
    (hout : out = withCursor cursor width height target p) :
    Composited cursor p (target p) out := by
  subst hout
  cases cursor with
  | none => exact ⟨fun _ => rfl, fun c hc => absurd hc (Option.not_mem_none c)⟩
  | some c =>
    have hpixel : ∀ argb, c.PixelAt p argb ↔ (of c).Holds p ∧
        c.cursorImage[(p.2 - (of c).y).toNat * (of c).w + (p.1 - (of c).x).toNat]? = some argb := by
      intro argb
      simp only [CursorReply.PixelAt, Holds, of]
      constructor
      · rintro ⟨col, hcol, row, hrow, hpx, hpy, hget⟩
        refine ⟨by omega, ?_⟩
        rw [hpx, hpy]
        simpa using hget
      · rintro ⟨hin, hget⟩
        exact ⟨_, by omega, _, by omega, by omega, by omega, hget⟩
    simp only [withCursor, blitCursor, hx, hy, and_self, true_and]
    refine ⟨fun haway => ?_, fun c' hc argb hat => ?_⟩
    · split_ifs with hin
      · split
        · rename_i argb hget
          exact absurd ((hpixel argb).2 ⟨hin, hget⟩) (haway c rfl argb)
        · rfl
      · rfl
    · obtain rfl := Option.some.inj hc
      obtain ⟨hin, hget⟩ := (hpixel argb).1 hat
      rw [if_pos hin]
      simp only [hget]
      exact sourceOver_blendArgb argb (target p)

end Ghostframe.X11
