import Ghostframe.Codec.Cdf53

/-!
# The CDF 5/3 transform is lossless

* `rowInverse_rowForward`: the lifting steps of a row are undone in reverse order;
* `inverseLevels_forwardLevels`: so are the three levels;
* `abs_forwardLevels_le`: a growth bound, level by level: the coefficients of an
  8-bit tile stay below `2 ^ 13` in magnitude;
* `inverse_forward`: the tile is reconstructed exactly.
-/

namespace Ghostframe.Codec

open List

/-! ### One row -/

variable {size : ℕ} (tileBgra : Bytes) {n : ℕ} (ch : ℕ) {y j : ℕ} {M : ℤ} {x : ℕ}

theorem mem_oddIndices : j ∈ oddIndices n ↔ j % 2 = 1 ∧ j < n := by
  simp only [oddIndices, mem_map, mem_range]
  constructor
  · rintro ⟨i, hi, rfl⟩
    omega
  · rintro ⟨hodd, hlt⟩
    exact ⟨j / 2, by omega, by omega⟩

theorem mem_evenIndices : j ∈ evenIndices n ↔ j % 2 = 0 ∧ j < n := by
  simp only [evenIndices, mem_map, mem_range]
  constructor
  · rintro ⟨i, hi, rfl⟩
    omega
  · rintro ⟨heven, hlt⟩
    exact ⟨j / 2, by omega, by omega⟩

theorem nodup_oddIndices (n : ℕ) : (oddIndices n).Nodup :=
  nodup_range.map fun i j h => by omega

theorem nodup_evenIndices (n : ℕ) : (evenIndices n).Nodup :=
  nodup_range.map fun i j h => by omega

theorem readsOutside_predicted (n : ℕ) : ReadsOutside (oddIndices n) (predicted n) := by
  intro b b' h i hi
  obtain ⟨hodd, hlt⟩ := mem_oddIndices.1 hi
  have hleft : b (i - 1) = b' (i - 1) := h _ fun hm => by
    have := (mem_oddIndices.1 hm).1
    omega
  have hright : b (i + 1) = b' (i + 1) := h _ fun hm => by
    have := (mem_oddIndices.1 hm).1
    omega
  simp only [predicted, rightOf, hleft, hright]

theorem readsOutside_updated (hn : n % 2 = 0) : ReadsOutside (evenIndices n) (updated n) := by
  intro b b' h i hi
  obtain ⟨heven, hlt⟩ := mem_evenIndices.1 hi
  have hodd : ∀ j, j % 2 = 1 → b j = b' j := fun j hj => h j fun hm => by
    have := (mem_evenIndices.1 hm).1
    omega
  have hright : b (i + 1) = b' (i + 1) := hodd _ (by omega)
  have hin : i + 1 < n := by omega
  by_cases hzero : i = 0
  · simp only [updated, leftOf, rightOf, hzero, if_true, hodd 1 rfl]
    simp only [hzero] at hin
    simp only [hin, if_true, Nat.zero_add]
  · have hleft : b (i - 1) = b' (i - 1) := hodd _ (by omega)
    simp only [updated, leftOf, rightOf, hzero, if_false, hin, if_true, hleft, hright]

theorem interleave_deinterleave (hn : n % 2 = 0) (buf : ℕ → ℤ) :
    interleave n (deinterleave n buf) = buf := by
  funext j
  unfold interleave
  by_cases hj : j < 2 * (n / 2)
  · rw [if_pos hj]
    by_cases heven : j % 2 = 0
    · rw [if_pos heven, deinterleave, if_pos (by omega)]
      congr 1
      omega
    · rw [if_neg heven, deinterleave, if_neg (by omega), if_pos (by omega)]
      congr 1
      omega
  · rw [if_neg hj, if_neg (by omega), deinterleave, if_neg (by omega), if_neg hj,
      if_neg (by omega)]

/-- **A row is reconstructed.** -/
theorem rowInverse_rowForward (hn : n % 2 = 0) (buf : ℕ → ℤ) :
    rowInverse n (rowForward n buf) = buf := by
  unfold rowInverse rowForward
  rw [interleave_deinterleave hn, lift_neg_lift (nodup_evenIndices n) (readsOutside_updated hn)]
  have hundo := lift_neg_lift (nodup_oddIndices n) (readsOutside_predicted n).neg buf
  simpa only [neg_neg] using hundo

/-- What lies beyond the first `n` entries is untouched. -/
theorem rowForward_of_le (hn : n % 2 = 0) (buf : ℕ → ℤ) (hj : n ≤ j) :
    rowForward n buf j = buf j := by
  have hodd : j ∉ oddIndices n := fun hm => by
    have := (mem_oddIndices.1 hm).2
    omega
  have heven : j ∉ evenIndices n := fun hm => by
    have := (mem_evenIndices.1 hm).2
    omega
  rw [rowForward, deinterleave, if_neg (by omega), if_neg (by omega), if_neg (by omega),
    lift_apply (nodup_evenIndices n) (readsOutside_updated hn), if_neg heven,
    lift_apply (nodup_oddIndices n) (readsOutside_predicted n).neg, if_neg hodd]

/-! ### Two dimensions -/

theorem onRows_rowInverse (hs : size % 2 = 0) (work : Work) :
    onRows size (rowInverse size) (onRows size (rowForward size) work) = work := by
  funext y
  unfold onRows
  by_cases hy : y < size
  · simp only [if_pos hy, rowInverse_rowForward hs]
  · simp only [if_neg hy]

theorem column_onColumns (hs : size % 2 = 0) (work : Work) (hx : x < size) :
    column size (onColumns size (rowForward size) work) x =
      rowForward size (column size work x) := by
  funext y
  unfold column onColumns
  by_cases hy : y < size
  · rw [if_pos hy, if_pos ⟨hx, hy⟩]
    rfl
  · rw [if_neg hy, rowForward_of_le hs _ (by omega), if_neg hy]

theorem onColumns_rowInverse (hs : size % 2 = 0) (work : Work) :
    onColumns size (rowInverse size) (onColumns size (rowForward size) work) = work := by
  funext y x
  by_cases h : x < size ∧ y < size
  · rw [onColumns, if_pos h, column_onColumns hs work h.1, rowInverse_rowForward hs, column,
      if_pos h.2]
  · rw [onColumns, if_neg h, onColumns, if_neg h]

theorem inverseLevel_forwardLevel (hs : size % 2 = 0) (work : Work) :
    inverseLevel size (forwardLevel size work) = work := by
  rw [inverseLevel, forwardLevel, onColumns_rowInverse hs, onRows_rowInverse hs]

/-- **The three levels are undone.** -/
theorem inverseLevels_forwardLevels (work : Work) :
    inverseLevels 3 8 (forwardLevels 3 32 work) = work := by
  simp only [forwardLevels, inverseLevels, inverseLevel_forwardLevel, Nat.reduceDiv,
    Nat.reduceMul, Nat.reduceMod]

/-! ### Growth -/

theorem predict_apply (n : ℕ) (buf : ℕ → ℤ) (j : ℕ) :
    lift (oddIndices n) (fun b i => -predicted n b i) buf j =
      if j % 2 = 1 ∧ j < n then buf j + -predicted n buf j else buf j := by
  rw [lift_apply (nodup_oddIndices n) (readsOutside_predicted n).neg]
  simp only [mem_oddIndices]

/-- A high-pass entry next to the even entry `e`: an entry of the row less the mean of `buf e` and
another one. -/
theorem predict_next {buf : ℕ → ℤ} (hbuf : ∀ j < n, |buf j| ≤ M) {e i : ℕ} (heven : e % 2 = 0)
    (he : e < n) (hi : i < n) (hnext : i = e + 1 ∨ i + 1 = e) :
    ∃ o b : ℤ, |o| ≤ M ∧ |b| ≤ M ∧
      lift (oddIndices n) (fun b i => -predicted n b i) buf i = o - (buf e + b) / 2 := by
  have hodd : i % 2 = 1 ∧ i < n := by omega
  rw [predict_apply, if_pos hodd, predicted, Int.shiftRight_eq_div_pow]
  rcases hnext with rfl | rfl
  · refine ⟨buf (e + 1), rightOf buf n (e + 1), hbuf _ hi, ?_, by simp [sub_eq_add_neg]⟩
    unfold rightOf
    split_ifs with hin
    · exact hbuf _ hin
    · exact hbuf _ he
  · refine ⟨buf i, buf (i - 1), hbuf _ hi, hbuf _ (by omega), ?_⟩
    rw [rightOf, if_pos he, add_comm (buf (i - 1))]
    simp [sub_eq_add_neg]

/-- The low-pass entries of a row grow by a half, the high-pass ones at most double. -/
theorem abs_rowForward_le (hn : n % 2 = 0) {buf : ℕ → ℤ} (hbuf : ∀ j < n, |buf j| ≤ M)
    (hj : j < n) :
    |rowForward n buf j| ≤ 2 * M + 1 ∧ (j < n / 2 → 2 * |rowForward n buf j| ≤ 3 * M + 2) := by
  rw [rowForward, deinterleave]
  by_cases hlow : j < n / 2
  · -- low pass: the entry `2 * j`, updated by the high-pass entries next to it
    have heven : 2 * j % 2 = 0 := by omega
    have he : 2 * j < n := by omega
    rw [if_pos hlow, lift_apply (nodup_evenIndices n) (readsOutside_updated hn),
      if_pos (mem_evenIndices.2 ⟨heven, he⟩), predict_apply, if_neg (by omega), updated,
      Int.shiftRight_eq_div_pow, rightOf, if_pos (by omega)]
    have hself := abs_le.1 (hbuf (2 * j) he)
    obtain ⟨o1, b1, ho1, hb1, h1⟩ :=
      predict_next hbuf heven he (by omega : 2 * j + 1 < n) (.inl rfl)
    have hleft : ∃ o b : ℤ, |o| ≤ M ∧ |b| ≤ M ∧
        leftOf (lift (oddIndices n) (fun b i => -predicted n b i) buf) (2 * j) =
          o - (buf (2 * j) + b) / 2 := by
      unfold leftOf
      split_ifs with hzero
      · exact predict_next hbuf heven he (by omega) (.inl (by omega))
      · exact predict_next hbuf heven he (by omega) (.inr (by omega))
    obtain ⟨o2, b2, ho2, hb2, h2⟩ := hleft
    rw [h1, h2]
    rw [abs_le] at ho1 hb1 ho2 hb2
    have hbound : 2 * |buf (2 * j) + (o2 - (buf (2 * j) + b2) / 2 +
        (o1 - (buf (2 * j) + b1) / 2) + 2) / ((2 ^ 2 : ℕ) : ℤ)| ≤ 3 * M + 2 := by
      norm_num
      rcases abs_cases (buf (2 * j) + (o2 - (buf (2 * j) + b2) / 2 +
        (o1 - (buf (2 * j) + b1) / 2) + 2) / 4) with ⟨habs, -⟩ | ⟨habs, -⟩
      · omega
      · omega
    refine ⟨?_, fun _ => hbound⟩
    omega
  · -- high pass: the odd entry `2 * (j - n / 2) + 1`
    refine ⟨?_, fun h => absurd h hlow⟩
    have hi : 2 * (j - n / 2) + 1 < n := by omega
    have heven : 2 * (j - n / 2) % 2 = 0 := by omega
    rw [if_neg hlow, if_pos (by omega), lift_apply (nodup_evenIndices n) (readsOutside_updated hn),
      if_neg fun hm => by have := (mem_evenIndices.1 hm).1; omega]
    obtain ⟨o, b, ho, hb, h⟩ := predict_next hbuf heven (by omega) hi (.inl rfl)
    have hself := abs_le.1 (hbuf (2 * (j - n / 2)) (by omega))
    rw [abs_le] at ho hb
    rw [h, abs_le]
    omega

theorem forwardLevel_of_outside (hs : size % 2 = 0) (work : Work) (h : ¬ (x < size ∧ y < size)) :
    forwardLevel size work y x = work y x := by
  rw [forwardLevel, onColumns, if_neg h, onRows]
  split_ifs with hy
  · exact rowForward_of_le hs _ (by omega)
  · rfl

/-- The growth of one level: of its whole corner, and of the corner of the next level. -/
theorem abs_forwardLevel_le (hs : size % 2 = 0) {work : Work}
    (hwork : ∀ y < size, ∀ x < size, |work y x| ≤ M) (hy : y < size) (hx : x < size) :
    |forwardLevel size work y x| ≤ 4 * M + 3 ∧
      (y < size / 2 → x < size / 2 →
        2 * |forwardLevel size work y x| ≤ 3 * ((3 * M + 2) / 2) + 2) := by
  set rows := onRows size (rowForward size) work with hrows
  have hrow : ∀ y' < size, rows y' x = rowForward size (work y') x := fun y' hy' => by
    rw [hrows, onRows, if_pos hy']
  have hcol : ∀ y' < size, column size rows x y' = rowForward size (work y') x := fun y' hy' => by
    rw [column, if_pos hy', hrow y' hy']
  have hlevel : forwardLevel size work y x = rowForward size (column size rows x) y := by
    rw [forwardLevel, onColumns, if_pos ⟨hx, hy⟩]
  rw [hlevel]
  constructor
  · have hall : ∀ y' < size, |column size rows x y'| ≤ 2 * M + 1 := fun y' hy' => by
      rw [hcol y' hy']
      exact (abs_rowForward_le hs (hwork y' hy') hx).1
    have hbound := (abs_rowForward_le hs hall hy).1
    linarith
  · intro hy2 hx2
    have hall : ∀ y' < size, |column size rows x y'| ≤ (3 * M + 2) / 2 := fun y' hy' => by
      rw [hcol y' hy']
      have hlow := (abs_rowForward_le hs (hwork y' hy') hx).2 hx2
      omega
    exact (abs_rowForward_le hs hall hy).2 hy2

/-- **Growth of the transform.** From 8-bit samples, no coefficient exceeds 13 magnitude bits. -/
theorem abs_forwardLevels_le {work : Work} (hwork : ∀ y < 32, ∀ x < 32, |work y x| ≤ 255)
    (hy : y < 32) (hx : x < 32) : |forwardLevels 3 32 work y x| ≤ 8191 := by
  simp only [forwardLevels, Nat.reduceDiv]
  obtain ⟨w1, hw1⟩ : ∃ w1, w1 = forwardLevel 32 work := ⟨_, rfl⟩
  obtain ⟨w2, hw2⟩ : ∃ w2, w2 = forwardLevel 16 w1 := ⟨_, rfl⟩
  rw [← hw1, ← hw2]
  have h1 : ∀ y < 32, ∀ x < 32, |w1 y x| ≤ 1023 := fun y hy x hx => by
    rw [hw1]
    exact (abs_forwardLevel_le rfl hwork hy hx).1
  have h1low : ∀ y < 16, ∀ x < 16, |w1 y x| ≤ 575 := fun y hy x hx => by
    have hlow := (abs_forwardLevel_le rfl hwork (by omega : y < 32) (by omega : x < 32)).2 hy hx
    rw [hw1]
    omega
  have h2 : ∀ y < 16, ∀ x < 16, |w2 y x| ≤ 2303 := fun y hy x hx => by
    rw [hw2]
    exact (abs_forwardLevel_le rfl h1low hy hx).1
  have h2low : ∀ y < 8, ∀ x < 8, |w2 y x| ≤ 1295 := fun y hy x hx => by
    have hlow := (abs_forwardLevel_le rfl h1low (by omega : y < 16) (by omega : x < 16)).2 hy hx
    rw [hw2]
    omega
  by_cases h8 : x < 8 ∧ y < 8
  · exact (abs_forwardLevel_le rfl h2low h8.2 h8.1).1.trans (by norm_num)
  · rw [forwardLevel_of_outside rfl _ h8]
    by_cases h16 : x < 16 ∧ y < 16
    · exact (h2 y h16.2 x h16.1).trans (by norm_num)
    · rw [hw2, forwardLevel_of_outside rfl _ h16]
      exact (h1 y hy x hx).trans (by norm_num)

/-! ### Layout -/

theorem mem_block {a b : ℕ} : (a, b) ∈ block y x n ↔ (y ≤ a ∧ a < y + n) ∧ x ≤ b ∧ b < x + n := by
  simp only [block, mem_flatMap, mem_map, mem_range, Prod.mk.injEq]
  constructor
  · rintro ⟨dy, hdy, dx, hdx, rfl, rfl⟩
    omega
  · rintro ⟨⟨h1, h2⟩, h3, h4⟩
    exact ⟨a - y, by omega, b - x, by omega, by omega, by omega⟩

theorem mem_bandOrder : (y, x) ∈ bandOrder ↔ y < 32 ∧ x < 32 := by
  simp only [bandOrder, mem_append, mem_block]
  omega

theorem length_bandOrder : bandOrder.length = cdf53CoeffsPerChannel := by decide +kernel

theorem toI16_of_abs_le {z : ℤ} (h : |z| ≤ 8191) : toI16 z = z := by
  have hz := abs_le.1 h
  exact Int.bmod_eq_of_le (by omega) (by omega)

theorem abs_loadChannel_le (y x : ℕ) : |loadChannel tileBgra ch y x| ≤ 255 := by
  unfold loadChannel
  split_ifs
  · have hlt := (tileBgra.getD ((y * 32 + x) * 4 + ch) 0).toNat_lt
    rw [abs_le]
    omega
  · simp

/-- **Every coefficient fits thirteen magnitude bits.** -/
theorem abs_forwardChannel_le : ∀ c ∈ forwardChannel tileBgra ch, |c| ≤ 8191 := by
  intro c hc
  obtain ⟨⟨y, x⟩, hp, rfl⟩ := mem_map.1 hc
  obtain ⟨hy, hx⟩ := mem_bandOrder.1 hp
  have hle := abs_forwardLevels_le (fun y _ x _ => abs_loadChannel_le tileBgra ch y x) hy hx
  simp only [toI16_of_abs_le hle]
  exact hle

theorem forwardLevels_loadChannel_of_outside (h : ¬ (y < 32 ∧ x < 32)) :
    forwardLevels 3 32 (loadChannel tileBgra ch) y x = 0 := by
  simp only [forwardLevels, Nat.reduceDiv]
  rw [forwardLevel_of_outside rfl _ (by omega), forwardLevel_of_outside rfl _ (by omega),
    forwardLevel_of_outside rfl _ (by omega), loadChannel, if_neg h]

/-- Unpacking a channel's coefficients gives the transformed work array back. -/
theorem unpackChannel_forwardChannel :
    unpackChannel (forwardChannel tileBgra ch) =
      forwardLevels 3 32 (loadChannel tileBgra ch) := by
  funext y x
  rw [unpackChannel, forwardChannel, scatter_map]
  by_cases h : y < 32 ∧ x < 32
  · rw [if_pos (mem_bandOrder.2 h), toI16_of_abs_le]
    exact abs_forwardLevels_le (fun y _ x _ => abs_loadChannel_le tileBgra ch y x) h.1 h.2
  · rw [if_neg fun hm => h (mem_bandOrder.1 hm), forwardLevels_loadChannel_of_outside _ _ h]

theorem length_forwardChannel : (forwardChannel tileBgra ch).length = cdf53CoeffsPerChannel := by
  rw [forwardChannel, length_map, length_bandOrder]

theorem forward_eq :
    forward tileBgra = forwardChannel tileBgra 0 ++ forwardChannel tileBgra 1 ++
      forwardChannel tileBgra 2 := by
  simp [forward, cdf53Channels, range_succ]

theorem channelOf_forward {ch : ℕ} (hch : ch < cdf53Channels) :
    channelOf (forward tileBgra) ch = forwardChannel tileBgra ch := by
  have hlen := length_forwardChannel tileBgra
  rw [forward_eq, channelOf]
  simp only [cdf53CoeffsPerChannel] at hlen ⊢
  simp only [cdf53Channels] at hch
  interval_cases ch
  · simp [hlen]
  · simp [hlen]
  · rw [drop_append_of_le_length (by simp [hlen]), drop_eq_nil_of_le (by simp [hlen]),
      nil_append, take_of_length_le (by simp [hlen])]

/-- The colour bytes of a BGRA tile. -/
def bgrOf (tileBgra : Bytes) : Bytes :=
  (List.range 1024).flatMap fun px =>
    (List.range cdf53Channels).map fun ch => tileBgra.getD (px * 4 + ch) 0

theorem clampU8_toNat (b : UInt8) : clampU8 (b.toNat : ℤ) = b := by
  have hlt := b.toNat_lt
  have hclamp : (max 0 (min (b.toNat : ℤ) 255)).toNat = b.toNat := by omega
  rw [clampU8, hclamp, UInt8.ofNat_toNat]

/-- **The transform is lossless.** -/
theorem inverse_forward : inverse (forward tileBgra) = bgrOf tileBgra := by
  unfold inverse bgrOf
  refine flatMap_congr fun px hpx => map_congr_left fun ch hch => ?_
  have hpx' : px < 1024 := mem_range.1 hpx
  rw [channelOf_forward tileBgra (mem_range.1 hch), unpackChannel_forwardChannel,
    inverseLevels_forwardLevels, loadChannel, if_pos (by omega)]
  rw [clampU8_toNat]
  congr 2
  omega

end Ghostframe.Codec
