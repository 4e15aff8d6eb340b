import Ghostframe.Lib.Dict
import Ghostframe.Protocol.Wire
import Ghostframe.Transport.Content

/-!
# What each emitted tile pass carried

One record per emitted tile pass, under the key `(frame_seq, tile_x, tile_y, pass_idx)` an
acknowledgement resolves to: codec, generation and palette of the emission. A record outlives the
retransmit cache's entry, and a late acknowledgement reads it. The map is bounded: beyond its
capacity the oldest record goes.

The source files the records under their tiles, which only saves it scanning; here the map is keyed
by the whole key.
-/

namespace Ghostframe.Transport

open Protocol Dict Option

/-- What one emission of a tile pass carried. -/
structure FragmentCoverage where
  tileX : UInt8
  tileY : UInt8
  generation : UInt8
  passIdx : UInt8
  codec : Codec
  paletteId : Option UInt8
  paletteBundled : Bool
  paletteHeld : Bool
  deriving DecidableEq

/-- `CoverageList`. -/
abbrev CoverageList := List FragmentCoverage

/-- `CoverageKey`: frame, tile and pass. -/
abbrev CoverageKey := EmitKey

/-- One recorded emission, and the stamp that matches it to its place in the queue. -/
structure Recorded where
  stamp : ℕ
  coverage : CoverageList
  deriving DecidableEq

/-- The records, and the keys in the order they were filed. -/
structure FragmentCoverageMap where
  capacity : ℕ
  nextStamp : ℕ := 0
  order : List (CoverageKey × ℕ) := []
  records : Dict CoverageKey Recorded := Dict.empty
  deriving DecidableEq

namespace FragmentCoverageMap

/-- `FragmentCoverageMap::new`; it asserts a positive capacity. -/
def new (capacity : ℕ) : FragmentCoverageMap := { capacity := capacity }

/-- The record of a key. -/
def get (m : FragmentCoverageMap) (key : CoverageKey) : Option CoverageList :=
  (m.records.get? key).map Recorded.coverage

/-- Is the queue entry that of a record still filed? -/
def isLive (records : Dict CoverageKey Recorded) (entry : CoverageKey × ℕ) : Bool :=
  (records.get? entry.1).any fun r => r.stamp = entry.2

variable (m : FragmentCoverageMap)

/-- `compact_order`: forget dead queue entries once they outnumber the live ones. -/
def compactOrder : FragmentCoverageMap :=
  if m.order.length ≤ 2 * m.records.size + 64 then m
  else { m with order := m.order.filter (isLive m.records) }

/-- The `while` loop of `record`: drop the oldest records until the capacity holds. -/
def evict (capacity : ℕ) :
    List (CoverageKey × ℕ) → Dict CoverageKey Recorded →
      List (CoverageKey × ℕ) × Dict CoverageKey Recorded
  | [], records => ([], records)
  | entry :: rest, records =>
    if records.size ≤ capacity then (entry :: rest, records)
    else evict capacity rest (if isLive records entry then records.erase entry.1 else records)

/-- `record`: a key filed again keeps its place. -/
def record (key : CoverageKey) (coverage : CoverageList) :
    FragmentCoverageMap :=
  match m.records.get? key with
  | some r => { m with records := m.records.insert key { r with coverage := coverage } }
  | none =>
    let filed := evict m.capacity (m.order ++ [(key, m.nextStamp)])
      (m.records.insert key ⟨m.nextStamp, coverage⟩)
    compactOrder { m with nextStamp := m.nextStamp + 1, order := filed.1, records := filed.2 }

/-- `take`. -/
def take (key : CoverageKey) : FragmentCoverageMap × Option CoverageList :=
  match m.get key with
  | none => (m, none)
  | some coverage => (compactOrder { m with records := m.records.erase key }, some coverage)

/-- `drop_cdf53_for_tile`. -/
def dropCdf53ForTile (x y : UInt8) : FragmentCoverageMap :=
  compactOrder
    { m with
      records := m.records.retain fun key r =>
        !(key.tileX = x ∧ key.tileY = y ∧ r.coverage.any fun c => c.codec = .cdf53) }

/-- The emission no longer carries or holds its palette. -/
def unbundle (c : FragmentCoverage) : FragmentCoverage :=
  if c.codec = .palRle then { c with paletteBundled := false, paletteHeld := false } else c

/-- The keys of a tile's records. -/
def keysOfTile (x y : UInt8) : List CoverageKey :=
  m.records.keys.filter fun key => key.tileX = x ∧ key.tileY = y

/-- `unbundle_palrle_for_tile`. -/
def unbundlePalrleForTile (x y : UInt8) : FragmentCoverageMap :=
  { m with
    records := (m.keysOfTile x y).foldl
      (fun records key => records.modify key fun r =>
        { r with coverage := r.coverage.map unbundle })
      m.records }

/-! ### What is found afterwards -/

@[simp] theorem get_compactOrder (key : CoverageKey) :
    m.compactOrder.get key = m.get key := by
  unfold compactOrder
  split <;> rfl

variable {m : FragmentCoverageMap} {key : CoverageKey} {found : CoverageList}

/-- Evicting only removes. -/
theorem get?_evict {capacity : ℕ} {r : Recorded} (order : List (CoverageKey × ℕ)) :
    ∀ records : Dict CoverageKey Recorded,
      (evict capacity order records).2.get? key = some r → records.get? key = some r := by
  induction order with
  | nil => exact fun records h => h
  | cons entry rest ih =>
    intro records h
    simp only [evict] at h
    split at h
    · exact h
    · have hrec := ih _ h
      split at hrec
      · exact (get?_of_get?_erase hrec).2
      · exact hrec

/-- After `record`, a record is the one just filed or one that was there. -/
theorem get_record {key' : CoverageKey} {coverage : CoverageList}
    (h : (m.record key coverage).get key' = some found) :
    (key' = key ∧ found = coverage) ∨ (key' ≠ key ∧ m.get key' = some found) := by
  obtain ⟨r, hr, rfl⟩ := map_eq_some_iff.1 h
  unfold record at hr
  split at hr
  · rename_i r₀ hr₀
    rw [get?_insert] at hr
    split at hr
    · rename_i hk
      exact .inl ⟨hk, by rw [← some.inj hr]⟩
    · rename_i hk
      exact .inr ⟨hk, by rw [get, hr, map_some]⟩
  · have hsame : ∀ t : FragmentCoverageMap, t.compactOrder.records = t.records := by
      intro t
      unfold compactOrder
      split <;> rfl
    rw [hsame] at hr
    have hins := get?_evict _ _ hr
    rw [get?_insert] at hins
    split at hins
    · rename_i hk
      exact .inl ⟨hk, by rw [← some.inj hins]⟩
    · rename_i hk
      exact .inr ⟨hk, by rw [get, hins, map_some]⟩

theorem take_snd (m : FragmentCoverageMap) (key : CoverageKey) : (m.take key).2 = m.get key := by
  unfold take
  split
  · rename_i h
    rw [h]
  · rename_i h
    rw [h]

theorem get_take {key' : CoverageKey} (h : (m.take key).1.get key' = some found) :
    m.get key' = some found := by
  unfold take at h
  split at h
  · exact h
  · rw [get_compactOrder] at h
    obtain ⟨r, hr, rfl⟩ := map_eq_some_iff.1 h
    rw [get, (get?_of_get?_erase hr).2, map_some]

theorem get_dropCdf53ForTile {x y : UInt8} (h : (m.dropCdf53ForTile x y).get key = some found) :
    m.get key = some found := by
  unfold dropCdf53ForTile at h
  rw [get_compactOrder] at h
  obtain ⟨r, hr, rfl⟩ := map_eq_some_iff.1 h
  rw [get, ((get?_retain_eq_some _ _ _ _).1 hr).1, map_some]

/-- Unbundling changes nothing but the palette flags. -/
theorem get_unbundlePalrleForTile {x y : UInt8}
    (h : (m.unbundlePalrleForTile x y).get key = some found) :
    ∃ old, m.get key = some old ∧ found.map unbundle = old.map unbundle := by
  have hidem : ∀ l : CoverageList, (l.map unbundle).map unbundle = l.map unbundle := by
    intro l
    rw [List.map_map]
    refine List.map_congr_left ?_
    intro c _
    by_cases hc : c.codec = .palRle <;> simp [unbundle, hc]
  have hfold : ∀ (keys : List CoverageKey) (records : Dict CoverageKey Recorded) (r : Recorded),
      (keys.foldl (fun records key =>
        records.modify key fun r => { r with coverage := r.coverage.map unbundle })
        records).get? key = some r →
      ∃ r₀, records.get? key = some r₀ ∧ r.coverage.map unbundle = r₀.coverage.map unbundle := by
    intro keys
    induction keys with
    | nil => exact fun records r hr => ⟨r, hr, rfl⟩
    | cons k keys ih =>
      intro records r hr
      obtain ⟨r₁, hr₁, he⟩ := ih _ r hr
      rw [get?_modify] at hr₁
      split at hr₁
      · obtain ⟨r₂, hr₂, rfl⟩ := map_eq_some_iff.1 hr₁
        rename_i hk
        exact ⟨r₂, hk ▸ hr₂, he.trans (hidem r₂.coverage)⟩
      · exact ⟨r₁, hr₁, he⟩
  obtain ⟨r, hr, rfl⟩ := map_eq_some_iff.1 h
  obtain ⟨r₀, hr₀, he⟩ := hfold _ _ r hr
  exact ⟨r₀.coverage, by rw [get, hr₀, map_some], he⟩

end FragmentCoverageMap

end Ghostframe.Transport
