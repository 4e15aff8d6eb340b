import Ghostframe.Lib.BitWords
import Ghostframe.Lib.Slab

/-!
# Per-tile delivery state

One slot per tile of the grid, indexed `tile_y * cols + tile_x`: the tile's current
generation, the frame label its datagrams carry, the passes acknowledged, and the
handle of the work queued for each pass. A tile outside the grid has no slot;
every operation on it does nothing.

* `slot_modifySlot`: an update touches the slot of one tile;
* `handle_setHandle`: filing a handle touches one pass of one tile.
-/

namespace Ghostframe.Transport

open Option

/-- The passes of a tile (`PASS_SLOTS`); single-pass codecs use index 0. -/
def passSlots : ℕ := 14

/-- `GENERATION_MASK`: generations are 4 bits on the wire. -/
def generationMask : UInt8 := 0x0F

/-- The delivery state of one tile. -/
structure TileSlot where
  currentGen : UInt8 := 0
  label : Option UInt32 := none
  ackedMask : UInt16 := 0
  passes : Fin passSlots → Option Handle := fun _ => none

namespace TileSlot

/-- The slot after its tile's generation advanced. -/
def bump (t : TileSlot) : TileSlot :=
  { t with
    currentGen := (t.currentGen + 1) &&& generationMask
    label := none
    ackedMask := 0 }

/-- The handle filed for a pass. -/
def handle (t : TileSlot) (p : UInt8) : Option Handle :=
  if hp : p.toNat < passSlots then t.passes ⟨p.toNat, hp⟩ else none

/-- The slot with the handle of one pass replaced. -/
def setHandle (t : TileSlot) (p : UInt8) (h : Option Handle) : TileSlot :=
  if hp : p.toNat < passSlots then { t with passes := Function.update t.passes ⟨p.toNat, hp⟩ h }
  else t

theorem handle_setHandle (t : TileSlot) {p : UInt8} (hp : p.toNat < passSlots) (h : Option Handle)
    (q : UInt8) : (t.setHandle p h).handle q = if q = p then h else t.handle q := by
  by_cases hqp : q = p
  · subst hqp
    simp [setHandle, handle, hp]
  · rw [if_neg hqp]
    unfold handle setHandle
    rw [dif_pos hp]
    by_cases hq : q.toNat < passSlots
    · rw [dif_pos hq, dif_pos hq]
      refine Function.update_of_ne (fun he => hqp ?_) _ _
      exact UInt8.toNat_inj.1 (Fin.mk.inj he)
    · rw [dif_neg hq, dif_neg hq]

end TileSlot

/-- The slots of a grid, row by row. -/
structure SlotMap where
  cols : ℕ
  rows : ℕ
  slots : List TileSlot
  size : slots.length = cols * rows

namespace SlotMap

variable {m : SlotMap} {x y x' y' p q : UInt8}

/-- `SlotMap::new`, and the map after `resize`. -/
def new (cols rows : ℕ) : SlotMap where
  cols := cols
  rows := rows
  slots := List.replicate (cols * rows) {}
  size := List.length_replicate

/-- The tile lies inside the grid. -/
def InGrid (m : SlotMap) (x y : UInt8) : Prop := x.toNat < m.cols ∧ y.toNat < m.rows

instance (m : SlotMap) (x y : UInt8) : Decidable (m.InGrid x y) :=
  inferInstanceAs (Decidable (_ ∧ _))

/-- `index`. -/
def index (m : SlotMap) (x y : UInt8) : Option ℕ :=
  if m.cols ≤ x.toNat ∨ m.rows ≤ y.toNat then none else some (y.toNat * m.cols + x.toNat)

theorem index_of_inGrid (h : m.InGrid x y) : m.index x y = some (y.toNat * m.cols + x.toNat) := by
  obtain ⟨hx, hy⟩ := h
  exact if_neg (by omega)

theorem index_of_not_inGrid (h : ¬ m.InGrid x y) : m.index x y = none := by
  unfold InGrid at h
  exact if_pos (by omega)

theorem rowMajor_inj {cols : ℕ} (hx : x.toNat < cols) (hx' : x'.toNat < cols)
    (he : y'.toNat * cols + x'.toNat = y.toNat * cols + x.toNat) : x' = x ∧ y' = y := by
  obtain ⟨hxx, hyy⟩ := (Ghostframe.rowMajor_inj hx' hx).1 he
  exact ⟨UInt8.toNat_inj.1 hxx, UInt8.toNat_inj.1 hyy⟩

theorem index_inj (h : m.InGrid x y) (h' : m.InGrid x' y')
    (he : y'.toNat * m.cols + x'.toNat = y.toNat * m.cols + x.toNat) : x' = x ∧ y' = y :=
  rowMajor_inj h.1 h'.1 he

theorem index_lt (h : m.InGrid x y) : y.toNat * m.cols + x.toNat < m.slots.length := by
  obtain ⟨hx, hy⟩ := h
  rw [m.size]
  exact rowMajor_lt hx hy

/-- `slot`. -/
def slot (m : SlotMap) (x y : UInt8) : Option TileSlot := (m.index x y).bind fun i => m.slots[i]?

/-- Change the slot of a tile (`slot_mut`). -/
def modifySlot (m : SlotMap) (x y : UInt8) (f : TileSlot → TileSlot) : SlotMap :=
  match m.index x y with
  | none => m
  | some i => { m with slots := m.slots.modify i f, size := by rw [List.length_modify, m.size] }

@[simp] theorem cols_modifySlot (m : SlotMap) (x y : UInt8) (f : TileSlot → TileSlot) :
    (m.modifySlot x y f).cols = m.cols := by
  unfold modifySlot
  split <;> rfl

@[simp] theorem rows_modifySlot (m : SlotMap) (x y : UInt8) (f : TileSlot → TileSlot) :
    (m.modifySlot x y f).rows = m.rows := by
  unfold modifySlot
  split <;> rfl

theorem slot_of_not_inGrid (h : ¬ m.InGrid x y) : m.slot x y = none := by
  rw [slot, index_of_not_inGrid h, bind_none]

theorem slot_of_inGrid (h : m.InGrid x y) : ∃ t, m.slot x y = some t := by
  rw [slot, index_of_inGrid h, bind_some]
  exact ⟨_, List.getElem?_eq_getElem (index_lt h)⟩

theorem modifySlot_of_not_inGrid (h : ¬ m.InGrid x y) (f : TileSlot → TileSlot) :
    m.modifySlot x y f = m := by
  unfold modifySlot
  rw [index_of_not_inGrid h]

/-- **An update touches the slot of one tile.** -/
theorem slot_modifySlot (m : SlotMap) (x y : UInt8) (f : TileSlot → TileSlot) (x' y' : UInt8) :
    (m.modifySlot x y f).slot x' y' =
      if x' = x ∧ y' = y then (m.slot x y).map f else m.slot x' y' := by
  by_cases h : m.InGrid x y
  · have hslots : (m.modifySlot x y f).slots = m.slots.modify (y.toNat * m.cols + x.toNat) f := by
      unfold modifySlot
      rw [index_of_inGrid h]
    by_cases h' : m.InGrid x' y'
    · have hin : (m.modifySlot x y f).InGrid x' y' := by simpa [InGrid] using h'
      rw [slot, slot, slot, index_of_inGrid hin, index_of_inGrid h, index_of_inGrid h',
        bind_some, bind_some, bind_some, hslots, cols_modifySlot,
        List.getElem?_modify]
      by_cases he : x' = x ∧ y' = y
      · rw [if_pos he, he.1, he.2]
        simp
      · have hne : y.toNat * m.cols + x.toNat ≠ y'.toNat * m.cols + x'.toNat :=
          fun heq => he (index_inj h h' heq.symm)
        simp [he, hne]
    · have hin : ¬ (m.modifySlot x y f).InGrid x' y' := by simpa [InGrid] using h'
      rw [slot_of_not_inGrid hin, slot_of_not_inGrid h', if_neg]
      rintro ⟨rfl, rfl⟩
      exact h' h
  · rw [modifySlot_of_not_inGrid h, slot_of_not_inGrid h, map_none]
    by_cases he : x' = x ∧ y' = y
    · rw [if_pos he, he.1, he.2, slot_of_not_inGrid h]
    · rw [if_neg he]

/-! ### The operations -/

/-- `generation`. -/
def generation (m : SlotMap) (x y : UInt8) : UInt8 := ((m.slot x y).map TileSlot.currentGen).getD 0

/-- `bump_generation`; returns the new generation. -/
def bumpGeneration (m : SlotMap) (x y : UInt8) : SlotMap × UInt8 :=
  (m.modifySlot x y TileSlot.bump, ((m.slot x y).map fun t => t.bump.currentGen).getD 0)

/-- `label_or_assign`. -/
def labelOrAssign (m : SlotMap) (x y : UInt8) (seq : UInt32) : SlotMap × UInt32 :=
  (m.modifySlot x y fun t => { t with label := some (t.label.getD seq) },
    ((m.slot x y).map fun t => t.label.getD seq).getD seq)

/-- `clear_label`. -/
def clearLabel (m : SlotMap) (x y : UInt8) : SlotMap :=
  m.modifySlot x y fun t => { t with label := none }

/-- The bit of a pass in the acknowledgement mask. -/
def passBit (p : UInt8) : UInt16 := 1 <<< (p &&& 0x0F).toUInt16

/-- `record_ack`. -/
def recordAck (m : SlotMap) (x y gen p : UInt8) : SlotMap :=
  m.modifySlot x y fun t =>
    if t.currentGen = gen then { t with ackedMask := t.ackedMask ||| passBit p } else t

/-- `handle`. -/
def handle (m : SlotMap) (x y p : UInt8) : Option Handle := (m.slot x y).bind fun t => t.handle p

/-- `set_handle`. -/
def setHandle (m : SlotMap) (x y p : UInt8) (h : Option Handle) : SlotMap :=
  m.modifySlot x y fun t => t.setHandle p h

/-- `clear_handles`. -/
def clearHandles (m : SlotMap) : SlotMap :=
  { m with
    slots := m.slots.map fun t => { t with passes := fun _ => none }
    size := by rw [List.length_map, m.size] }

/-! ### Handles -/

/-- **Filing a handle touches one pass of one tile.** -/
theorem handle_setHandle (hg : m.InGrid x y) (hp : p.toNat < passSlots) (h : Option Handle)
    (x' y' q : UInt8) :
    (m.setHandle x y p h).handle x' y' q =
      if x' = x ∧ y' = y ∧ q = p then h else m.handle x' y' q := by
  unfold handle setHandle
  rw [slot_modifySlot]
  by_cases he : x' = x ∧ y' = y
  · obtain ⟨rfl, rfl⟩ := he
    obtain ⟨t, ht⟩ := slot_of_inGrid hg
    rw [if_pos ⟨rfl, rfl⟩, ht, map_some, bind_some, bind_some,
      TileSlot.handle_setHandle t hp]
    by_cases hq : q = p <;> simp [hq]
  · rw [if_neg he, if_neg (fun h => he ⟨h.1, h.2.1⟩)]

/-- A filed handle is one of a tile of the grid and of a pass the slot has. -/
theorem inGrid_of_handle {h : Handle} (hh : m.handle x y p = some h) :
    m.InGrid x y ∧ p.toNat < passSlots := by
  constructor
  · by_contra hng
    rw [handle, slot_of_not_inGrid hng] at hh
    cases hh
  · by_contra hp
    obtain ⟨t, _, hth⟩ := bind_eq_some_iff.1 hh
    rw [TileSlot.handle, dif_neg hp] at hth
    cases hth

/-- Slots without handles make a map without handles. -/
theorem handle_of_empty (hm : ∀ t ∈ m.slots, ∀ q, t.passes q = none) (x y p : UInt8) :
    m.handle x y p = none := by
  unfold handle slot
  cases hi : m.index x y with
  | none => rfl
  | some i =>
    cases ht : m.slots[i]? with
    | none => simp [ht]
    | some t =>
      simp only [bind_some, ht, TileSlot.handle]
      split
      · exact hm t (List.mem_of_getElem? ht) _
      · rfl

theorem handle_new (cols rows : ℕ) (x y p : UInt8) : (new cols rows).handle x y p = none := by
  refine handle_of_empty ?_ x y p
  intro t ht q
  rw [List.eq_of_mem_replicate ht]

theorem handle_clearHandles (m : SlotMap) (x y p : UInt8) : m.clearHandles.handle x y p = none := by
  refine handle_of_empty ?_ x y p
  intro t ht q
  obtain ⟨t', -, rfl⟩ := List.mem_map.1 ht
  rfl

/-- An update that keeps the handles of a slot keeps those of the map. -/
theorem handle_modifySlot (m : SlotMap) (x y : UInt8) {f : TileSlot → TileSlot}
    (hf : ∀ t, (f t).passes = t.passes) (x' y' q : UInt8) :
    (m.modifySlot x y f).handle x' y' q = m.handle x' y' q := by
  unfold handle
  rw [slot_modifySlot]
  by_cases he : x' = x ∧ y' = y
  · obtain ⟨rfl, rfl⟩ := he
    rw [if_pos ⟨rfl, rfl⟩]
    cases m.slot x' y' with
    | none => rfl
    | some t => simp only [map_some, bind_some, TileSlot.handle, hf]
  · rw [if_neg he]

@[simp] theorem handle_bumpGeneration (m : SlotMap) (x y x' y' q : UInt8) :
    (m.bumpGeneration x y).1.handle x' y' q = m.handle x' y' q := by
  refine handle_modifySlot m x y ?_ x' y' q
  intro t
  rfl

@[simp] theorem handle_clearLabel (m : SlotMap) (x y x' y' q : UInt8) :
    (m.clearLabel x y).handle x' y' q = m.handle x' y' q := by
  refine handle_modifySlot m x y ?_ x' y' q
  intro t
  rfl

@[simp] theorem handle_labelOrAssign (m : SlotMap) (x y : UInt8) (seq : UInt32) (x' y' q : UInt8) :
    (m.labelOrAssign x y seq).1.handle x' y' q = m.handle x' y' q := by
  refine handle_modifySlot m x y ?_ x' y' q
  intro t
  rfl

@[simp] theorem handle_recordAck (m : SlotMap) (x y gen p x' y' q : UInt8) :
    (m.recordAck x y gen p).handle x' y' q = m.handle x' y' q := by
  refine handle_modifySlot m x y ?_ x' y' q
  intro t
  split <;> rfl

end SlotMap

end Ghostframe.Transport
