import Ghostframe.Client.LabelOrder
import Ghostframe.Transport.BridgeRun

/-!
# Labels order content

Every datagram of a generation carries the frame in which the generation was first sent. The client
compares the 31-bit labels, and the 4-bit generations where the labels are equal.

* `Labels`: in a run the frames behind the labels grow with the true generations;
* `classifyArrival_eq`: what the client makes of two labelled generations;
* `labels_order_content`: the client orders two datagrams of a tile as the server's history does, as
  long as the labels are less than `2 ^ 30` frames apart and generations that share a label are at
  most seven bumps apart.

Generations that are bumped and never sent count towards the distance too:
`label_shared_across_bumps`.
-/

namespace Ghostframe.Transport

open Protocol TileBridge Client List Nat Option Scheduler SlotMap

/-! ### The two sides of a label -/

/-- The word that labels the tiles first sent in a frame. -/
def labelWord (frame : ℕ) : UInt32 := .ofNat frame ||| tileDatagramFlag

theorem toNat_labelWord_mask (frame : ℕ) :
    (labelWord frame &&& frameSeqMask).toNat = frame % 2 ^ 31 := by
  have hflag : tileDatagramFlag.toNat = 2 ^ 31 := rfl
  have hmask : frameSeqMask.toNat = 2 ^ 31 - 1 := rfl
  rw [labelWord, UInt32.toNat_and, UInt32.toNat_or, UInt32.toNat_ofNat', hflag, hmask,
    and_two_pow_sub_one_eq_mod]
  refine eq_of_testBit_eq fun i => ?_
  rw [testBit_mod_two_pow, testBit_mod_two_pow, testBit_or, testBit_mod_two_pow,
    testBit_two_pow]
  by_cases hi : i < 31
  · simp [hi, show i < 32 by omega, show ¬ 31 = i by omega]
  · simp [hi]

theorem frameSeqIsNewer_labelWord (f g : ℕ) (hlow : f < g + 2 ^ 30) (hhigh : g < f + 2 ^ 30) :
    frameSeqIsNewer (labelWord g &&& frameSeqMask)
      (labelWord f &&& frameSeqMask) = decide (f < g) := by
  have hf := toNat_labelWord_mask f
  have hg := toNat_labelWord_mask g
  rw [frameSeqIsNewer, forward31_eq, hf, hg, ← Bool.decide_and, decide_eq_decide]
  omega

/-- Which of two generations is newer, by their true distance. -/
theorem generationIsNewer_wireGen (i j : ℕ) (hlow : i ≤ j + 7) (hhigh : j ≤ i + 7) :
    generationIsNewer (wireGen j) (wireGen i) = decide (i < j) := by
  have hforward : ((wireGen j - wireGen i) &&& 0x0F).toNat = (j + 16 - i % 16) % 16 := by
    have hmask : (0x0F : UInt8).toNat = 2 ^ 4 - 1 := rfl
    rw [UInt8.toNat_and, UInt8.toNat_sub, toNat_wireGen, toNat_wireGen, hmask,
      and_two_pow_sub_one_eq_mod]
    omega
  rw [generationIsNewer]
  rw [← Bool.decide_and, decide_eq_decide]
  omega

/-- **What the client makes of a datagram of generation `j` when it holds generation `i`.** -/
theorem classifyArrival_eq (i j f g : ℕ) (hsame : i = j → f = g) (hless : i < j → f ≤ g)
    (hmore : j < i → g ≤ f) (hlow : f < g + 2 ^ 30) (hhigh : g < f + 2 ^ 30)
    (hnear : f = g → i ≤ j + 7 ∧ j ≤ i + 7) :
    classifyArrival (wireGen i) (labelWord f) (wireGen j) (labelWord g) =
      if i = j then .current else if i < j then .newGeneration else .stale := by
  have hmaskeq : labelWord g &&& frameSeqMask = labelWord f &&& frameSeqMask ↔
      f = g := by
    rw [← UInt32.toNat_inj, toNat_labelWord_mask, toNat_labelWord_mask]
    omega
  unfold classifyArrival
  simp only [Ne, hmaskeq]
  by_cases hfg : f = g
  · obtain ⟨h₁, h₂⟩ := hnear hfg
    have hgen : wireGen j = wireGen i ↔ i = j := by
      rw [← UInt8.toNat_inj, toNat_wireGen, toNat_wireGen]
      omega
    rw [if_neg (not_not.2 hfg)]
    simp only [hgen, generationIsNewer_wireGen i j h₁ h₂, decide_eq_true_eq]
  · have hij : i ≠ j := fun h => hfg (hsame h)
    rw [if_pos hfg, if_neg hij, frameSeqIsNewer_labelWord f g hlow hhigh]
    by_cases hlt : i < j
    · rw [if_pos hlt, if_pos (decide_eq_true (by omega))]
    · have hnot : ¬ f < g := by omega
      simp [hlt, hnot]

/-! ### The frames of a run -/

/-- What the labels of a run tell, over its slots, the true generations, the frames of the slots'
labels and the transmissions. -/
structure Labels (m : SlotMap) (epoch labelFrame : UInt8 × UInt8 → ℕ) (lastFrame : ℕ)
    (sent : List Departure) : Prop where
  word : ∀ d ∈ sent, d.key.frameSeq = labelWord d.frame
  frame_le : ∀ d ∈ sent, d.frame ≤ lastFrame
  gen : ∀ d ∈ sent, m.InGrid d.key.tileX d.key.tileY →
    d.generation = wireGen d.epoch ∧ d.epoch ≤ epoch d.key.tile
  unlabelled : ∀ x y t, m.slot x y = some t → t.label = none →
    ∀ d ∈ sent, d.key.tile = (x, y) → d.epoch < epoch (x, y)
  labelled : ∀ x y t l, m.slot x y = some t → t.label = some l →
    l = .ofNat (labelFrame (x, y)) ∧ labelFrame (x, y) ≤ lastFrame ∧
      ∀ d ∈ sent, d.key.tile = (x, y) → d.frame ≤ labelFrame (x, y) ∧
        (d.epoch = epoch (x, y) → d.frame = labelFrame (x, y))
  ordered : ∀ d ∈ sent, ∀ d' ∈ sent, d.key.tile = d'.key.tile →
    m.InGrid d.key.tileX d.key.tileY →
    (d.epoch = d'.epoch → d.frame = d'.frame) ∧ (d.epoch < d'.epoch → d.frame ≤ d'.frame)

namespace Labels

variable {m : SlotMap} {epoch labelFrame : UInt8 × UInt8 → ℕ} {lastFrame : ℕ}
  {sent : List Departure}

/-- An update of a slot that keeps its label. -/
theorem modifySlot (hl : Labels m epoch labelFrame lastFrame sent) (x y : UInt8)
    {f : TileSlot → TileSlot} (hf : ∀ t, (f t).label = t.label) :
    Labels (m.modifySlot x y f) epoch labelFrame lastFrame sent := by
  have hgrid : ∀ x' y', (m.modifySlot x y f).InGrid x' y' ↔ m.InGrid x' y' := by
    simp [SlotMap.InGrid]
  have hslot : ∀ x' y' t', (m.modifySlot x y f).slot x' y' = some t' →
      ∃ t, m.slot x' y' = some t ∧ t'.label = t.label := by
    intro x' y' t' ht'
    rw [slot_modifySlot] at ht'
    split at ht'
    · rename_i he
      obtain ⟨t, ht, rfl⟩ := map_eq_some_iff.1 ht'
      exact ⟨t, by rw [he.1, he.2, ht], hf t⟩
    · exact ⟨t', ht', rfl⟩
  refine ⟨hl.word, hl.frame_le, ?_, ?_, ?_, ?_⟩
  · exact fun d hd hin => hl.gen d hd ((hgrid _ _).1 hin)
  · intro x' y' t' ht' hnone
    obtain ⟨t, ht, he⟩ := hslot x' y' t' ht'
    exact hl.unlabelled x' y' t ht (he ▸ hnone)
  · intro x' y' t' l ht' hsome
    obtain ⟨t, ht, he⟩ := hslot x' y' t' ht'
    exact hl.labelled x' y' t l ht (he ▸ hsome)
  · exact fun d hd d' hd' htile hin => hl.ordered d hd d' hd' htile ((hgrid _ _).1 hin)

theorem advance (hl : Labels m epoch labelFrame lastFrame sent) {frame : ℕ}
    (hle : lastFrame ≤ frame) : Labels m epoch labelFrame frame sent := by
  refine { hl with frame_le := ?_, labelled := ?_ }
  · exact fun d hd => le_trans (hl.frame_le d hd) hle
  · intro x y t l ht hlab
    obtain ⟨hw, hle', hd⟩ := hl.labelled x y t l ht hlab
    exact ⟨hw, le_trans hle' hle, hd⟩

/-- A bump forgets the label, and the tile has sent nothing of its new generation. -/
theorem bump (hl : Labels m epoch labelFrame lastFrame sent) (x y : UInt8) :
    Labels (m.bumpGeneration x y).1 (Function.update epoch (x, y) (epoch (x, y) + 1)) labelFrame
      lastFrame sent := by
  have hgrid : ∀ x' y', (m.bumpGeneration x y).1.InGrid x' y' ↔ m.InGrid x' y' := by
    simp [SlotMap.InGrid, SlotMap.bumpGeneration]
  have hepoch : ∀ tile, epoch tile ≤ Function.update epoch (x, y) (epoch (x, y) + 1) tile := by
    intro tile
    by_cases ht : tile = (x, y)
    · rw [ht, Function.update_self]
      exact le_succ _
    · rw [Function.update_of_ne ht]
  have hin : ∀ {x' y' t}, m.slot x' y' = some t → m.InGrid x' y' := by
    intro x' y' t ht
    by_contra hng
    rw [SlotMap.slot_of_not_inGrid hng] at ht
    cases ht
  refine ⟨hl.word, hl.frame_le, ?_, ?_, ?_, ?_⟩
  · intro d hd hd'
    obtain ⟨hg, hle⟩ := hl.gen d hd ((hgrid _ _).1 hd')
    exact ⟨hg, le_trans hle (hepoch _)⟩
  · intro x' y' t ht hnone d hd htile
    rw [SlotMap.bumpGeneration, slot_modifySlot] at ht
    split at ht
    · rename_i he
      obtain ⟨t', ht', rfl⟩ := map_eq_some_iff.1 ht
      rw [he.1, he.2] at htile ⊢
      obtain ⟨hx, hy⟩ := Prod.mk.inj htile
      have hle := (hl.gen d hd (by rw [hx, hy]; exact hin ht')).2
      rw [htile] at hle
      rw [Function.update_self]
      omega
    · rename_i he
      rw [Function.update_of_ne (fun h => he (Prod.mk.inj h))]
      exact hl.unlabelled x' y' t ht hnone d hd htile
  · intro x' y' t l ht hsome
    rw [SlotMap.bumpGeneration, slot_modifySlot] at ht
    split at ht
    · obtain ⟨t', _, rfl⟩ := map_eq_some_iff.1 ht
      cases hsome
    · rename_i he
      rw [Function.update_of_ne (fun h => he (Prod.mk.inj h))]
      exact hl.labelled x' y' t l ht hsome
  · exact fun d hd d' hd' htile hin' => hl.ordered d hd d' hd' htile ((hgrid _ _).1 hin')

/-- A tile is labelled: with the label it has, or else with the frame. -/
theorem label (hl : Labels m epoch labelFrame lastFrame sent) (x y : UInt8) :
    Labels (m.labelOrAssign x y (.ofNat lastFrame)).1 epoch
      (Function.update labelFrame (x, y) (frameUnder m labelFrame x y lastFrame)) lastFrame
          sent := by
  have hgrid :
      ∀ x' y', (m.labelOrAssign x y (.ofNat lastFrame)).1.InGrid x' y' ↔ m.InGrid x' y' := by
    simp [SlotMap.InGrid, labelOrAssign]
  refine ⟨hl.word, hl.frame_le, ?_, ?_, ?_, ?_⟩
  · exact fun d hd hin => hl.gen d hd ((hgrid _ _).1 hin)
  · intro x' y' t ht hnone
    rw [labelOrAssign, slot_modifySlot] at ht
    split at ht
    · obtain ⟨t', _, rfl⟩ := map_eq_some_iff.1 ht
      cases hnone
    · exact hl.unlabelled x' y' t ht hnone
  · intro x' y' t l ht hsome
    rw [labelOrAssign, slot_modifySlot] at ht
    split at ht
    · rename_i he
      obtain ⟨t', ht', rfl⟩ := map_eq_some_iff.1 ht
      rw [he.1, he.2, Function.update_self, frameUnder, ht', bind_some]
      have hsome' : t'.label.getD (.ofNat lastFrame) = l := some.inj hsome
      cases hlab : t'.label with
      | none =>
        rw [hlab, getD_none] at hsome'
        refine ⟨hsome'.symm, le_rfl, fun d hd htile => ⟨hl.frame_le d hd, fun heq => ?_⟩⟩
        -- nothing of this generation has been sent yet
        have hlt := hl.unlabelled x y t' ht' hlab d hd htile
        omega
      | some l' =>
        rw [hlab, getD_some] at hsome'
        exact hl.labelled x y t' l ht' (by rw [hlab, hsome'])
    · rename_i he
      rw [Function.update_of_ne (fun h => he (Prod.mk.inj h))]
      exact hl.labelled x' y' t l ht hsome
  · exact fun d hd d' hd' htile hin => hl.ordered d hd d' hd' htile ((hgrid _ _).1 hin)

/-- A datagram of the current generation is sent under the label of its tile. -/
theorem send (hl : Labels m epoch labelFrame lastFrame sent) {d : Departure}
    (hword : d.key.frameSeq = labelWord d.frame) (hle : d.frame ≤ lastFrame)
    (hcur : m.InGrid d.key.tileX d.key.tileY →
      d.generation = wireGen (epoch d.key.tile) ∧ d.epoch = epoch d.key.tile)
    (hlab : ∀ t, m.slot d.key.tileX d.key.tileY = some t →
      t.label.isSome ∧ d.frame = labelFrame d.key.tile) :
    Labels m epoch labelFrame lastFrame (sent ++ [d]) := by
  have hmem : ∀ {P : Departure → Prop}, (∀ d' ∈ sent, P d') → P d → ∀ d' ∈ sent ++ [d], P d' := by
    intro P hall hd d' hd'
    rcases mem_append.1 hd' with hd' | hd'
    · exact hall d' hd'
    · exact mem_singleton.1 hd' ▸ hd
  -- what has been sent for a tile of the grid, against the new datagram
  have hold : m.InGrid d.key.tileX d.key.tileY → ∀ d' ∈ sent, d'.key.tile = d.key.tile →
      d'.epoch ≤ d.epoch ∧ d'.frame ≤ d.frame ∧ (d'.epoch = d.epoch → d'.frame = d.frame) := by
    intro hin d' hd' htile
    obtain ⟨t, ht⟩ := slot_of_inGrid hin
    obtain ⟨hsome, hframe⟩ := hlab t ht
    obtain ⟨l, hl'⟩ := isSome_iff_exists.1 hsome
    obtain ⟨-, -, hall⟩ := hl.labelled _ _ t l ht hl'
    obtain ⟨hfle, hfeq⟩ := hall d' hd' htile
    obtain ⟨hx, hy⟩ := Prod.mk.inj htile
    have hle' := (hl.gen d' hd' (by rw [hx, hy]; exact hin)).2
    rw [htile, ← (hcur hin).2] at hle'
    refine ⟨hle', hframe ▸ hfle, fun he => ?_⟩
    rw [hframe]
    exact hfeq (he.trans (hcur hin).2)
  refine ⟨hmem hl.word hword, hmem hl.frame_le hle, hmem hl.gen ?_, ?_, ?_, ?_⟩
  · exact fun hin => ⟨(hcur hin).2 ▸ (hcur hin).1, (hcur hin).2.le⟩
  · intro x y t ht hnone
    refine hmem (hl.unlabelled x y t ht hnone) ?_
    intro htile
    obtain ⟨hx, hy⟩ := Prod.mk.inj htile
    obtain ⟨hsome, -⟩ := hlab t (by rw [hx, hy]; exact ht)
    rw [hnone] at hsome
    cases hsome
  · intro x y t l ht hsome
    obtain ⟨hw, hle', hall⟩ := hl.labelled x y t l ht hsome
    refine ⟨hw, hle', hmem hall ?_⟩
    intro htile
    obtain ⟨hx, hy⟩ := Prod.mk.inj htile
    obtain ⟨-, hframe⟩ := hlab t (by rw [hx, hy]; exact ht)
    rw [hframe, htile]
    exact ⟨le_rfl, fun _ => rfl⟩
  · intro a ha b hb htile hin
    obtain ⟨hx, hy⟩ := Prod.mk.inj htile
    rcases mem_append.1 ha with ha' | ha' <;> rcases mem_append.1 hb with hb' | hb'
    · exact hl.ordered a ha' b hb' htile hin
    · obtain rfl := mem_singleton.1 hb'
      obtain ⟨-, hf, he⟩ := hold (by rw [← hx, ← hy]; exact hin) a ha' htile
      exact ⟨he, fun _ => hf⟩
    · obtain rfl := mem_singleton.1 ha'
      obtain ⟨hep, -, he⟩ := hold hin b hb' htile.symm
      exact ⟨fun h => (he h.symm).symm, fun h => absurd h (by omega)⟩
    · obtain rfl := mem_singleton.1 ha'
      obtain rfl := mem_singleton.1 hb'
      exact ⟨fun _ => rfl, fun _ => le_rfl⟩

end Labels

/-! ### Every step keeps the labels -/

namespace BridgeRun

variable {r : BridgeRun}

/-- The labels of a run tell its frames. -/
def Labelled (r : BridgeRun) : Prop :=
  Labels r.bridge.scheduler.slots r.epoch r.labelFrame r.lastFrame r.sent

/-- The frames of the drains do not go back. -/
def InOrder (r : BridgeRun) : BridgeOp → Prop
  | .drain frame _ _ _ _ _ => r.lastFrame ≤ frame
  | _ => True

instance (r : BridgeRun) : ∀ op, Decidable (r.InOrder op)
  | .drain .. => inferInstanceAs (Decidable (_ ≤ _))
  | .dispatchTile .. | .supersedeTile .. | .enqueueCdf53Generation .. | .strandedReenqueue ..
  | .ack _ | .onNack _ | .tickBudgeted .. | .retire _ => .isTrue trivial

theorem Labelled.congr (h : r.Labelled) {b : TileBridge} (hb : b.scheduler = r.bridge.scheduler) :
    { r with bridge := b }.Labelled := by
  unfold Labelled
  rw [hb]
  exact h

theorem Labelled.bump (h : r.Labelled) (x y : UInt8) : (r.bump x y).Labelled := by
  have hbump := Labels.bump h x y
  unfold Labelled
  rw [scheduler_bump, epoch_bump, (bumpGenerationCollecting_spec _ x y).1]
  simp only [BridgeRun.bump]
  exact hbump

theorem labels_file {s : Scheduler} {epoch labelFrame : UInt8 × UInt8 → ℕ} {lastFrame : ℕ}
    {sent : List Departure} (hl : Labels s.slots epoch labelFrame lastFrame sent) (w : TileWork) :
    Labels (s.file w).1.slots epoch labelFrame lastFrame sent := by
  rw [(file_spec s w).1]
  refine hl.modifySlot w.tileX w.tileY ?_
  intro t
  unfold TileSlot.setHandle
  split <;> rfl

theorem Labelled.enqueue (h : r.Labelled) (w : TileWork) (now : Instant) :
    (r.enqueue w now).Labelled := labels_file h (w.queued now)

theorem Labelled.refine (h : r.Labelled) (w : TileWork) : (r.refine w).Labelled := labels_file h w

theorem Labelled.refine_foldl (ws : List TileWork) :
    ∀ {r : BridgeRun}, r.Labelled → (ws.foldl BridgeRun.refine r).Labelled := by
  induction ws with
  | nil => exact fun h => h
  | cons w ws ih => exact fun h => ih (h.refine w)

theorem Labelled.ack (h : r.Labelled) (ds : List Departure) : (r.ack ds).Labelled := by
  have hack := scheduler_dispatchAck
    (P := fun s => Labels s.slots r.epoch r.labelFrame r.lastFrame r.sent) ?_ ?_
    (ds.map Departure.key) h
  · exact hack
  · intro s x y gen p hs
    rw [slots_markAcked]
    exact hs
  · intro s x y gen p hs
    refine hs.modifySlot x y ?_
    intro t
    split <;> rfl

/-! ### Drains -/

/-- The label a tile is sent under is that of its frame. -/
theorem label_eq (h : r.Labelled) (x y : UInt8) :
    (r.bridge.scheduler.frameLabel x y (.ofNat r.lastFrame)).2 =
      .ofNat (r.frameOf x y r.lastFrame) ∧ r.frameOf x y r.lastFrame ≤ r.lastFrame := by
  simp only [frameLabel, labelOrAssign, frameOf, frameUnder]
  cases hslot : r.bridge.scheduler.slots.slot x y with
  | none => exact ⟨rfl, le_rfl⟩
  | some t =>
    simp only [map_some, getD_some, bind_some]
    rcases eq_none_or_eq_some t.label with hlab | ⟨l, hlab⟩
    · simp [hlab]
    · obtain ⟨hw, hle, -⟩ := h.labelled x y t l hslot hlab
      simp only [hlab, getD_some, isSome_some, if_true]
      exact ⟨hw, hle⟩

theorem Labelled.emit (h : r.Labelled) {args : DrainArgs} (hseq : args.seq = .ofNat r.lastFrame)
    {e : SentWork} (hfresh : r.Fresh e) : (BridgeRun.emit args r.lastFrame r e).Labelled := by
  obtain ⟨hword, hle⟩ := label_eq h e.work.tileX e.work.tileY
  have hl := Labels.label h e.work.tileX e.work.tileY
  unfold Labelled
  rw [scheduler_emit, hseq]
  simp only [BridgeRun.emit]
  split
  · exact hl
  · refine hl.send ?_ hle ?_ ?_
    · show (r.bridge.scheduler.frameLabel e.work.tileX e.work.tileY args.seq).2 ||| _ = _
      rw [hseq, hword]
      rfl
    · intro hin
      have hin' : r.bridge.scheduler.slots.InGrid e.work.tileX e.work.tileY := by
        simpa [SlotMap.InGrid, labelOrAssign, departure, emitKey] using hin
      obtain ⟨hfiled, hgen⟩ := hfresh.current hin'
      refine ⟨hgen, ?_⟩
      simp only [departure, hfiled, getD_some]
      rfl
    · intro t ht
      simp only [departure, emitKey] at ht ⊢
      rw [labelOrAssign, slot_modifySlot, if_pos ⟨rfl, rfl⟩] at ht
      obtain ⟨t', _, rfl⟩ := map_eq_some_iff.1 ht
      refine ⟨rfl, ?_⟩
      rw [EmitKey.tile, Function.update_self]
      rfl

theorem Labelled.drain (h : r.Labelled) (hs : r.InStep) {args : DrainArgs} {frame : ℕ}
    (hseq : args.seq = .ofNat frame) (hle : r.lastFrame ≤ frame) :
    (r.drain args frame).Labelled := by
  have hticked : (r.ticked args frame).Labelled := Labels.advance h hle
  refine (drain_inv (I := fun r => r.Labelled ∧ r.lastFrame = frame) ?_ hs ⟨hticked, rfl⟩).1
  rintro r e ⟨h, rfl⟩ hfresh
  exact ⟨h.emit hseq hfresh, rfl⟩

/-- **What every step in order preserves.** -/
theorem Labelled.step (h : r.Labelled) (hs : r.InStep) {op : BridgeOp} (hop : r.InOrder op) :
    (r.step op).Labelled := by
  cases op with
  | dispatchTile x y codec payload now =>
    have hcancel : (r.cancel x y).Labelled := h.congr rfl
    exact (hcancel.bump x y).enqueue _ now
  | supersedeTile x y =>
    have hcancel : (r.cancel x y).Labelled := h.congr rfl
    exact hcancel.bump x y
  | enqueueCdf53Generation x y enc now =>
    have hcancel : (r.withEmitter (r.bridge.emitter.cancelForTile (x, y))).Labelled := h.congr rfl
    exact Labelled.refine_foldl _ (hcancel.bump x y)
  | strandedReenqueue x y enc now => exact Labelled.refine_foldl _ h
  | drain frame timestampUs maxFrag budget share now => exact h.drain hs rfl hop
  | ack places => exact h.ack _
  | onNack | tickBudgeted | retire => exact h.congr rfl

theorem labelled_start (cols rows capacity : ℕ) (now : Instant) :
    (start cols rows capacity now).Labelled := by
  refine ⟨nofun, nofun, nofun, ?_, ?_, nofun⟩
  · exact fun x y t _ _ => nofun
  · intro x y t l ht hlab
    obtain ⟨i, _, ht⟩ := bind_eq_some_iff.1 ht
    obtain ⟨hi, rfl⟩ := List.getElem?_eq_some_iff.1 ht
    simp [start, Scheduler.new, SlotMap.new] at hlab

/-- **The client orders the datagrams of a tile as the server's history does**, whichever of the two
arrives second. -/
theorem labels_order_content (cols rows capacity : ℕ) (now : Instant) (ops : List BridgeOp)
    (hops : Along InOrder step (start cols rows capacity now) ops) (a b : Departure)
    (ha : a ∈ (run step (start cols rows capacity now) ops).sent)
    (hb : b ∈ (run step (start cols rows capacity now) ops).sent)
    (htile : a.key.tile = b.key.tile)
    (hgrid : (run step (start cols rows capacity now) ops).bridge.scheduler.slots.InGrid
      a.key.tileX a.key.tileY)
    (hlow : a.frame < b.frame + 2 ^ 30) (hhigh : b.frame < a.frame + 2 ^ 30)
    (hnear : a.key.frameSeq = b.key.frameSeq → a.epoch ≤ b.epoch + 7 ∧ b.epoch ≤ a.epoch + 7) :
    Client.classifyArrival a.generation a.key.frameSeq b.generation b.key.frameSeq =
      if a.epoch = b.epoch then .current
      else if a.epoch < b.epoch then .newGeneration else .stale := by
  have hinv := hops.inv (I := fun r => r.InStep ∧ r.Labelled)
    (fun r op hr hop => ⟨hr.1.step op, hr.2.step hr.1 hop⟩)
    ⟨inStep_start cols rows capacity now, labelled_start cols rows capacity now⟩
  obtain ⟨-, hl⟩ := hinv
  obtain ⟨hx, hy⟩ := Prod.mk.inj htile
  obtain ⟨hgena, -⟩ := hl.gen a ha hgrid
  obtain ⟨hgenb, -⟩ := hl.gen b hb (by rw [← hx, ← hy]; exact hgrid)
  have hword : a.key.frameSeq = labelWord a.frame := hl.word a ha
  have hword' : b.key.frameSeq = labelWord b.frame := hl.word b hb
  obtain ⟨hsame, hless⟩ := hl.ordered a ha b hb htile hgrid
  obtain ⟨-, hmore⟩ := hl.ordered b hb a ha htile.symm (by rw [← hx, ← hy]; exact hgrid)
  rw [hgena, hgenb, hword, hword']
  refine classifyArrival_eq a.epoch b.epoch a.frame b.frame hsame hless hmore hlow hhigh ?_
  intro hframe
  refine hnear ?_
  rw [hword, hword', hframe]

/-- Two generations, sent in two frames. -/
theorem labels_order_content_two :
    ∃ a ∈ (run step (start 1 1 16 0) [dirty, drainAll 5, dirty, drainAll 6]).sent,
      ∃ b ∈ (run step (start 1 1 16 0) [dirty, drainAll 5, dirty, drainAll 6]).sent,
        a.epoch < b.epoch ∧
          Client.classifyArrival a.generation a.key.frameSeq b.generation b.key.frameSeq =
            .newGeneration := by
  refine ⟨⟨⟨0x80000005, 0, 0, 0⟩, 1, 1, 5⟩, by decide +kernel, ⟨⟨0x80000006, 0, 0, 0⟩, 2, 2, 6⟩,
    by decide +kernel, by decide, ?_⟩
  exact labels_order_content 1 1 16 0 [dirty, drainAll 5, dirty, drainAll 6] (by decide +kernel)
    ⟨⟨0x80000005, 0, 0, 0⟩, 1, 1, 5⟩ ⟨⟨0x80000006, 0, 0, 0⟩, 2, 2, 6⟩ (by decide +kernel)
    (by decide +kernel) rfl (by decide +kernel) (by decide) (by decide) (by decide)

/-- **Two generations under one label, nine bumps apart**: the tile is sent, changes eight more
times without being sent, and is sent again in the same frame. The client holds the first and takes
the second for older. -/
theorem label_shared_across_bumps :
    Along InOrder step (start 1 1 16 0)
        ([dirty, drainAll 5] ++ List.replicate 8 (.supersedeTile 0 0) ++ [dirty, drainAll 5]) ∧
      (run step (start 1 1 16 0)
        ([dirty, drainAll 5] ++ List.replicate 8 (.supersedeTile 0 0) ++
          [dirty, drainAll 5])).sent =
        [⟨⟨0x80000005, 0, 0, 0⟩, 1, 1, 5⟩, ⟨⟨0x80000005, 0, 0, 0⟩, 10, 10, 5⟩] ∧
      Client.classifyArrival 1 0x80000005 10 0x80000005 = .stale := by
  decide +kernel

end BridgeRun

end Ghostframe.Transport
