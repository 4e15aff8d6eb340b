import Ghostframe.Transport.BridgeRun

/-!
# Acknowledgements credit the content they name

An acknowledgement names a transmission. The server reduces it to a key (label, tile, pass), looks
up what was last recorded under the key, and credits the 4-bit generation found there.

* `Attributed`: every record is of a transmission under its key;
* `AckBook`: what the scheduler regards as acknowledged was acknowledged;
* `acks_credit_their_content`: so it is in every run that never sends two generations of a pass
  under one key, acknowledges no transmission sixteen generations late, and reuses no handle.

The code does not keep the first condition: a tile that changes twice within a frame sends both
generations under the frame's label (`older_ack_credits_newer`).
-/

namespace Ghostframe.Transport

open Protocol TileBridge BridgeRun FragmentCoverageMap List Option TileWork

/-! ### What the coverage records -/

/-- The tile pass of a record. -/
def FragmentCoverage.slot (c : FragmentCoverage) : PassSlot := (c.tileX, c.tileY, c.passIdx)

/-- Every record under a key is of the key's tile pass, and of a transmission under the key. -/
def Attributed (m : FragmentCoverageMap) (sent : List Departure) : Prop :=
  ∀ key coverage, m.get key = some coverage → ∀ c ∈ coverage,
    c.slot = key.slot ∧ ∃ d ∈ sent, d.key = key ∧ d.generation = c.generation

namespace Attributed

variable {m m' : FragmentCoverageMap} {sent sent' : List Departure}

theorem shrink (hc : Attributed m sent)
    (hsub : ∀ key coverage, m'.get key = some coverage → m.get key = some coverage) :
    Attributed m' sent :=
  fun key coverage hget => hc key coverage (hsub key coverage hget)

theorem unbundle (hc : Attributed m sent) (x y : UInt8) :
    Attributed (m.unbundlePalrleForTile x y) sent := by
  have hsame : ∀ c : FragmentCoverage, (FragmentCoverageMap.unbundle c).slot = c.slot ∧
      (FragmentCoverageMap.unbundle c).generation = c.generation := by
    intro c
    unfold FragmentCoverageMap.unbundle
    split <;> exact ⟨rfl, rfl⟩
  intro key coverage hget c hmem
  obtain ⟨old, hold, heq⟩ := get_unbundlePalrleForTile hget
  have hmap : FragmentCoverageMap.unbundle c ∈ old.map FragmentCoverageMap.unbundle :=
    heq ▸ mem_map_of_mem hmem
  obtain ⟨c', hc', he⟩ := mem_map.1 hmap
  obtain ⟨hslot, d, hd, hkey, hgen⟩ := hc key old hold c' hc'
  refine ⟨?_, d, hd, hkey, ?_⟩
  · rw [← (hsame c).1, ← he, (hsame c').1, hslot]
  · rw [hgen, ← (hsame c').2, he, (hsame c).2]

/-- An emission is recorded under the key of its transmission. -/
theorem record (hc : Attributed m sent) {d : Departure} {c : FragmentCoverage}
    (hslot : c.slot = d.key.slot) (hgen : d.generation = c.generation) :
    Attributed (m.record d.key [c]) (sent ++ [d]) := by
  intro key coverage hget c' hmem
  rcases get_record hget with ⟨rfl, rfl⟩ | ⟨-, hold⟩
  · obtain rfl := mem_singleton.1 hmem
    exact ⟨hslot, d, mem_append_right _ (mem_singleton_self d), rfl, hgen⟩
  · obtain ⟨hslot', d', hd', he⟩ := hc key coverage hold c' hmem
    exact ⟨hslot', d', mem_append_left _ hd', he⟩

end Attributed

/-! ### What the scheduler regards as acknowledged -/

/-- The handles of the slots are of the slots' passes, and what is marked acknowledged was. -/
structure AckBook (m : SlotMap) (get : Handle → Option TileWork) (epoch : UInt8 × UInt8 → ℕ)
    (filed : Handle → Option ℕ) (acked : List Departure) : Prop where
  keyed : ∀ x y p h w, m.handle x y p = some h → get h = some w → w.key = (x, y, p)
  issued : ∀ x y p h, m.handle x y p = some h → filed h ≠ none
  mask : ∀ x y t (p : UInt8), m.slot x y = some t → p.toNat < passSlots →
    hasBit t.ackedMask p.toNat → ∃ d ∈ acked, d.key.slot = (x, y, p) ∧ d.epoch = epoch (x, y)
  item : ∀ h w, get h = some w → w.state = .acked →
    ∃ d ∈ acked, d.key.slot = w.key ∧ filed h = some d.epoch

namespace AckBook

variable {m : SlotMap} {get get' : Handle → Option TileWork} {epoch : UInt8 × UInt8 → ℕ}
  {filed : Handle → Option ℕ} {acked : List Departure} {h : Handle} {w : TileWork} {x y p : UInt8}

/-- Items may go or change, as long as none becomes acknowledged. -/
theorem of_items (ha : AckBook m get epoch filed acked)
    (hsub : ∀ k w', get' k = some w' →
      ∃ w, get k = some w ∧ w'.key = w.key ∧ (w'.state = .acked → w.state = .acked)) :
    AckBook m get' epoch filed acked := by
  refine ⟨?_, ha.issued, ha.mask, ?_⟩
  · intro x y p k w' hh hw'
    obtain ⟨w, hw, hkey, -⟩ := hsub k w' hw'
    rw [hkey]
    exact ha.keyed x y p k w hh hw
  · intro k w' hw' hst
    obtain ⟨w, hw, hkey, hst'⟩ := hsub k w' hw'
    rw [hkey]
    exact ha.item k w hw (hst' hst)

theorem mono (ha : AckBook m get epoch filed acked) (ds : List Departure) :
    AckBook m get epoch filed (acked ++ ds) := by
  refine ⟨ha.keyed, ha.issued, ?_, ?_⟩
  · intro x y t p ht hp hbit
    obtain ⟨d, hd, he⟩ := ha.mask x y t p ht hp hbit
    exact ⟨d, mem_append_left _ hd, he⟩
  · intro k w hw hst
    obtain ⟨d, hd, he⟩ := ha.item k w hw hst
    exact ⟨d, mem_append_left _ hd, he⟩

/-- An update of a slot that keeps its handles and its mask. -/
theorem modifySlot (ha : AckBook m get epoch filed acked) (x y : UInt8) {f : TileSlot → TileSlot}
    (hpasses : ∀ t, (f t).passes = t.passes) (hmask : ∀ t, (f t).ackedMask = t.ackedMask) :
    AckBook (m.modifySlot x y f) get epoch filed acked := by
  refine ⟨?_, ?_, ?_, ha.item⟩
  · intro x' y' p k w hh
    rw [SlotMap.handle_modifySlot m x y hpasses] at hh
    exact ha.keyed x' y' p k w hh
  · intro x' y' p k hh
    rw [SlotMap.handle_modifySlot m x y hpasses] at hh
    exact ha.issued x' y' p k hh
  · intro x' y' t p ht hp hbit
    rw [SlotMap.slot_modifySlot] at ht
    split at ht
    · rename_i he
      obtain ⟨t', ht', rfl⟩ := map_eq_some_iff.1 ht
      rw [hmask] at hbit
      rw [he.1, he.2]
      exact ha.mask x y t' p ht' hp hbit
    · exact ha.mask x' y' t p ht hp hbit

/-- A bump clears the mask. -/
theorem bump (ha : AckBook m get epoch filed acked) (x y : UInt8) :
    AckBook (m.bumpGeneration x y).1 get (Function.update epoch (x, y) (epoch (x, y) + 1)) filed
      acked := by
  refine ⟨?_, ?_, ?_, ha.item⟩
  · intro x' y' p k w hh
    rw [SlotMap.handle_bumpGeneration] at hh
    exact ha.keyed x' y' p k w hh
  · intro x' y' p k hh
    rw [SlotMap.handle_bumpGeneration] at hh
    exact ha.issued x' y' p k hh
  · intro x' y' t p ht hp hbit
    rw [SlotMap.bumpGeneration, SlotMap.slot_modifySlot] at ht
    split at ht
    · obtain ⟨t', _, rfl⟩ := map_eq_some_iff.1 ht
      simp [TileSlot.bump] at hbit
    · rename_i he
      rw [Function.update_of_ne (fun h => he (Prod.mk.inj h))]
      exact ha.mask x' y' t p ht hp hbit

/-- An item is filed under a handle that was never used before. -/
theorem file (ha : AckBook m get epoch filed acked) (hnew : filed h = none)
    (hpass : w.passIdx.toNat < passSlots) (hst : w.state = .pending) :
    AckBook (m.setHandle w.tileX w.tileY w.passIdx (some h))
      (fun k => if k = h then some w else get k) epoch
      (Function.update filed h (some (epoch w.tile))) acked := by
  have hhandle : ∀ x y p k, (m.setHandle w.tileX w.tileY w.passIdx (some h)).handle x y p = some k →
      (k = h ∧ w.key = (x, y, p)) ∨ (k ≠ h ∧ m.handle x y p = some k) := by
    intro x y p k hk
    have hold : m.handle x y p = some k → k ≠ h := by
      rintro hmk rfl
      exact ha.issued x y p k hmk hnew
    by_cases hin : m.InGrid w.tileX w.tileY
    · rw [SlotMap.handle_setHandle hin hpass] at hk
      split at hk
      · rename_i he
        obtain ⟨rfl, rfl, rfl⟩ := he
        exact .inl ⟨(some.inj hk).symm, rfl⟩
      · exact .inr ⟨hold hk, hk⟩
    · rw [SlotMap.setHandle, SlotMap.modifySlot_of_not_inGrid hin] at hk
      exact .inr ⟨hold hk, hk⟩
  refine ⟨?_, ?_, ?_, ?_⟩
  · intro x y p k v hk hv
    rcases hhandle x y p k hk with ⟨rfl, hkey⟩ | ⟨hne, hmk⟩
    · rw [if_pos rfl] at hv
      rw [← some.inj hv, hkey]
    · rw [if_neg hne] at hv
      exact ha.keyed x y p k v hmk hv
  · intro x y p k hk
    rcases hhandle x y p k hk with ⟨rfl, -⟩ | ⟨hne, hmk⟩
    · simp
    · rw [Function.update_of_ne hne]
      exact ha.issued x y p k hmk
  · intro x' y' t p ht hp hbit
    rw [SlotMap.setHandle, SlotMap.slot_modifySlot] at ht
    split at ht
    · rename_i he
      obtain ⟨t', ht', rfl⟩ := map_eq_some_iff.1 ht
      have hmask : (t'.setHandle w.passIdx (some h)).ackedMask = t'.ackedMask := by
        unfold TileSlot.setHandle
        split <;> rfl
      rw [hmask] at hbit
      rw [he.1, he.2]
      exact ha.mask _ _ t' p ht' hp hbit
    · exact ha.mask x' y' t p ht hp hbit
  · intro k v hv hst'
    split at hv
    · rw [← some.inj hv, hst] at hst'
      cases hst'
    · rename_i hne
      rw [Function.update_of_ne hne]
      exact ha.item k v hv hst'

/-- A pass of the current generation is recorded as acknowledged. -/
theorem recordAck (ha : AckBook m get epoch filed acked) {gen : UInt8}
    (hp : p.toNat < passSlots)
    (hcredit : ∀ t, m.slot x y = some t → t.currentGen = gen →
      ∃ d ∈ acked, d.key.slot = (x, y, p) ∧ d.epoch = epoch (x, y)) :
    AckBook (m.recordAck x y gen p) get epoch filed acked := by
  refine ⟨?_, ?_, ?_, ha.item⟩
  · intro x' y' q k w hh
    rw [SlotMap.handle_recordAck] at hh
    exact ha.keyed x' y' q k w hh
  · intro x' y' q k hh
    rw [SlotMap.handle_recordAck] at hh
    exact ha.issued x' y' q k hh
  · intro x' y' t q ht hq hbit
    rw [SlotMap.recordAck, SlotMap.slot_modifySlot] at ht
    split at ht
    · rename_i he
      obtain ⟨rfl, rfl⟩ := he
      obtain ⟨t', ht', rfl⟩ := map_eq_some_iff.1 ht
      split at hbit
      · rename_i hgen
        have hpass : passSlots < 16 := by decide
        have hbit' : SlotMap.passBit p = 1 <<< UInt16.ofNat p.toNat := by
          have hand : p &&& 0x0F = p := by
            have hmask : (0x0F : UInt8).toNat = 2 ^ 4 - 1 := rfl
            rw [← UInt8.toNat_inj, UInt8.toNat_and, hmask, Nat.and_two_pow_sub_one_eq_mod]
            omega
          rw [SlotMap.passBit, hand]
          simp
        have hor : t'.ackedMask ||| SlotMap.passBit p = withBit t'.ackedMask p.toNat := by
          rw [hbit', withBit]
        rw [hor, hasBit_withBit _ (by omega) (by omega), Bool.or_eq_true, decide_eq_true_eq] at hbit
        rcases hbit with hbit | hqp
        · exact ha.mask x' y' t' q ht' hq hbit
        · rw [UInt8.toNat_inj.1 hqp]
          exact hcredit t' ht' hgen
      · exact ha.mask x' y' t' q ht' hq hbit
    · exact ha.mask x' y' t q ht hq hbit

/-- The item a slot holds is marked acknowledged. -/
theorem markAcked {s : Scheduler} {gen : UInt8}
    (ha : AckBook s.slots s.work.get epoch filed acked)
    (hcredit : ∀ h w, s.slots.handle x y p = some h → s.work.get h = some w → w.generation = gen →
      w.state = .inFlight → ∃ d ∈ acked, d.key.slot = (x, y, p) ∧ filed h = some d.epoch) :
    AckBook (s.markAcked x y gen p).slots (s.markAcked x y gen p).work.get epoch filed acked := by
  unfold Scheduler.markAcked
  split
  · exact ha
  · rename_i h hh
    refine ⟨?_, ha.issued, ha.mask, ?_⟩
    · intro x' y' q k w' hk hw'
      simp only [Slab.get_modify] at hw'
      split at hw'
      · rename_i hkh
        obtain ⟨w, hw, rfl⟩ := map_eq_some_iff.1 hw'
        have hkey := ha.keyed x' y' q k w hk (hkh ▸ hw)
        split <;> exact hkey
      · exact ha.keyed x' y' q k w' hk hw'
    · intro k w' hw' hst
      simp only [Slab.get_modify] at hw'
      split at hw'
      · rename_i hkh
        obtain ⟨w, hw, rfl⟩ := map_eq_some_iff.1 hw'
        split at hst
        · rename_i hmatch
          obtain ⟨d, hd, hslot, hfiled⟩ := hcredit h w hh hw hmatch.1 hmatch.2
          rw [if_pos hmatch, hkh]
          exact ⟨d, hd, hslot.trans (ha.keyed x y p h w hh hw).symm, hfiled⟩
        · rename_i hmatch
          rw [if_neg hmatch, hkh]
          exact ha.item h w hw hst
      · exact ha.item k w' hw' hst

end AckBook

/-! ### One acknowledgement -/

/-- A key some acknowledged transmission has, and no transmission sixteen generations behind. -/
def Acknowledged (epoch : UInt8 × UInt8 → ℕ) (acked : List Departure) (d : Departure) : Prop :=
  d ∈ acked ∧ (wireGen d.epoch = wireGen (epoch d.key.tile) → d.epoch = epoch d.key.tile)

section Credit

variable {epoch : UInt8 × UInt8 → ℕ} {filed : Handle → Option ℕ} {acked : List Departure}
  {m : SlotMap} {s : Scheduler} {d : Departure} {gen : UInt8}

/-- The generation found for the transmission, if it is the current one, is that of its content. -/
theorem Acknowledged.epoch_eq (hack : Acknowledged epoch acked d)
    (hgen : s.slots.InGrid d.key.tileX d.key.tileY → gen = wireGen d.epoch)
    (hin : s.slots.InGrid d.key.tileX d.key.tileY) (hcur : gen = wireGen (epoch d.key.tile)) :
    d.epoch = epoch d.key.tile :=
  hack.2 ((hgen hin).symm.trans hcur)

theorem Acknowledged.markAcked (hack : Acknowledged epoch acked d)
    (hs : Stamped s.slots s.work.get epoch filed)
    (ha : AckBook s.slots s.work.get epoch filed acked)
    (hgen : s.slots.InGrid d.key.tileX d.key.tileY → gen = wireGen d.epoch) :
    AckBook (s.markAcked d.key.tileX d.key.tileY gen d.key.passIdx).slots
      (s.markAcked d.key.tileX d.key.tileY gen d.key.passIdx).work.get epoch filed acked := by
  refine ha.markAcked ?_
  intro h w hh hw hwgen hst
  have hin := (SlotMap.inGrid_of_handle hh).1
  obtain ⟨hx, hy, -⟩ :
      w.tileX = d.key.tileX ∧ w.tileY = d.key.tileY ∧ w.passIdx = d.key.passIdx := by
    simpa [key] using ha.keyed _ _ _ h w hh hw
  obtain ⟨hfiled, hcur⟩ := hs.current h w hw (.inr hst) (by rw [hx, hy]; exact hin)
  have htile : w.tile = d.key.tile := by rw [tile, EmitKey.tile, hx, hy]
  rw [htile] at hfiled hcur
  refine ⟨d, hack.1, rfl, ?_⟩
  rw [hack.epoch_eq hgen hin (hwgen.symm.trans hcur)]
  exact hfiled

theorem Acknowledged.recordAck (hack : Acknowledged epoch acked d)
    (hs : Stamped s.slots s.work.get epoch filed)
    (ha : AckBook s.slots s.work.get epoch filed acked)
    (hgen : s.slots.InGrid d.key.tileX d.key.tileY → gen = wireGen d.epoch)
    (hp : d.key.passIdx.toNat < passSlots) :
    AckBook (s.slots.recordAck d.key.tileX d.key.tileY gen d.key.passIdx) s.work.get epoch filed
      acked := by
  refine ha.recordAck hp ?_
  intro t ht hcur
  have hin : s.slots.InGrid d.key.tileX d.key.tileY := by
    by_contra hng
    rw [SlotMap.slot_of_not_inGrid hng] at ht
    cases ht
  exact ⟨d, hack.1, rfl, hack.epoch_eq hgen hin (hcur.symm.trans (hs.gen _ _ t ht))⟩

/-- What holds of the scheduler while a batch of acknowledgements is worked through; the grid is
that of `m`. -/
structure Settled (m : SlotMap) (epoch : UInt8 × UInt8 → ℕ) (filed : Handle → Option ℕ)
    (acked : List Departure) (s : Scheduler) : Prop where
  grid : ∀ x y, s.slots.InGrid x y → m.InGrid x y
  stamped : Stamped s.slots s.work.get epoch filed
  accounts : AckBook s.slots s.work.get epoch filed acked

theorem Settled.markAcked (hst : Settled m epoch filed acked s) (hack : Acknowledged epoch acked d)
    (hgen : s.slots.InGrid d.key.tileX d.key.tileY → gen = wireGen d.epoch) :
    Settled m epoch filed acked (s.markAcked d.key.tileX d.key.tileY gen d.key.passIdx) := by
  refine ⟨?_, ?_, hack.markAcked hst.stamped hst.accounts hgen⟩
  · rw [Scheduler.slots_markAcked]
    exact hst.grid
  · rw [Scheduler.slots_markAcked]
    exact hst.stamped.weaken (Scheduler.weakens_markAcked s _ _ gen _)

theorem Settled.recordCdf53Ack (hst : Settled m epoch filed acked s)
    (hack : Acknowledged epoch acked d)
    (hgen : s.slots.InGrid d.key.tileX d.key.tileY → gen = wireGen d.epoch)
    (hp : d.key.passIdx.toNat < passSlots) :
    Settled m epoch filed acked (s.recordCdf53Ack d.key.tileX d.key.tileY gen d.key.passIdx) := by
  refine ⟨?_, ?_, hack.recordAck hst.stamped hst.accounts hgen hp⟩
  · intro x y hin
    refine hst.grid x y ?_
    simpa [SlotMap.InGrid, Scheduler.recordCdf53Ack, SlotMap.recordAck] using hin
  · refine hst.stamped.modifySlot _ _ ?_ ?_
    · intro t
      split <;> rfl
    · intro t
      split <;> rfl

/-- **One record of an acknowledged transmission.** -/
theorem Settled.creditCoverage {b : TileBridge} {c : FragmentCoverage}
    (hst : Settled m epoch filed acked b.scheduler) (hack : Acknowledged epoch acked d)
    (hslot : c.slot = d.key.slot) (hp : d.key.passIdx.toNat < passSlots)
    (hgen : b.scheduler.slots.InGrid d.key.tileX d.key.tileY → c.generation = wireGen d.epoch) :
    Settled m epoch filed acked (b.creditCoverage c).scheduler := by
  obtain ⟨hx, hy, hpass⟩ : c.tileX = d.key.tileX ∧ c.tileY = d.key.tileY ∧
      c.passIdx = d.key.passIdx := by
    simpa [FragmentCoverage.slot, EmitKey.slot] using hslot
  have hmark := hst.markAcked hack hgen
  unfold TileBridge.creditCoverage
  rw [hx, hy, hpass]
  cases c.codec with
  | cdf53 =>
    refine hmark.recordCdf53Ack hack ?_ hp
    rw [Scheduler.slots_markAcked]
    exact hgen
  | _ => exact hmark

/-- What is known of the transmissions of a run. -/
structure SentAs (m : SlotMap) (sent : List Departure) : Prop where
  gen : ∀ d ∈ sent, m.InGrid d.key.tileX d.key.tileY → d.generation = wireGen d.epoch
  pass : ∀ d ∈ sent, d.key.passIdx.toNat < passSlots

/-- Transmissions under one key carry one generation. -/
def OnePerKey (sent : List Departure) : Prop :=
  ∀ d ∈ sent, ∀ d' ∈ sent, d.key = d'.key → d.epoch = d'.epoch

instance (sent : List Departure) : Decidable (OnePerKey sent) :=
  inferInstanceAs (Decidable (∀ d ∈ sent, ∀ d' ∈ sent, _))

@[simp] theorem fragmentCoverage_creditCoverage (b : TileBridge) (c : FragmentCoverage) :
    (b.creditCoverage c).fragmentCoverage = b.fragmentCoverage := by
  unfold creditCoverage
  cases c.codec <;> rfl

theorem fragmentCoverage_foldl (l : CoverageList) (b : TileBridge) :
    (l.foldl creditCoverage b).fragmentCoverage = b.fragmentCoverage := by
  induction l generalizing b with
  | nil => rfl
  | cons c l ih => rw [foldl_cons, ih, fragmentCoverage_creditCoverage]

variable {sent : List Departure} {b : TileBridge}

/-- All records of an acknowledged transmission. -/
theorem Settled.creditCoverage_foldl (hack : Acknowledged epoch acked d)
    (hp : d.key.passIdx.toNat < passSlots) (l : CoverageList)
    (hl : ∀ c ∈ l, c.slot = d.key.slot ∧
      (m.InGrid d.key.tileX d.key.tileY → c.generation = wireGen d.epoch)) :
    ∀ {b : TileBridge}, Settled m epoch filed acked b.scheduler →
      Settled m epoch filed acked (l.foldl TileBridge.creditCoverage b).scheduler := by
  induction l with
  | nil => exact fun hst => hst
  | cons c l ih =>
    intro b hst
    obtain ⟨hslot, hgen⟩ := hl c mem_cons_self
    refine ih (fun c' hc' => hl c' (mem_cons_of_mem _ hc')) ?_
    exact hst.creditCoverage hack hslot hp fun hin => hgen (hst.grid _ _ hin)

/-- **One acknowledged key credits the content of the transmission.** -/
theorem Settled.applyAckCoverage (hst : Settled m epoch filed acked b.scheduler)
    (hat : Attributed b.fragmentCoverage sent) (htrue : SentAs m sent) (hone : OnePerKey sent)
    (hack : Acknowledged epoch acked d) (hd : d ∈ sent) :
    Settled m epoch filed acked (b.applyAckCoverage d.key).scheduler ∧
      Attributed (b.applyAckCoverage d.key).fragmentCoverage sent := by
  have htake : (b.fragmentCoverage.take d.key).2 = b.fragmentCoverage.get d.key :=
    take_snd _ _
  have hshrink : Attributed (b.fragmentCoverage.take d.key).1 sent :=
    hat.shrink fun key coverage hget => get_take hget
  unfold TileBridge.applyAckCoverage
  split
  · exact ⟨hst, hat⟩
  · rename_i m' coverage heq
    rw [heq] at htake hshrink
    refine ⟨?_, ?_⟩
    · refine Settled.creditCoverage_foldl hack (htrue.pass d hd) coverage ?_
        (b := { b with fragmentCoverage := m' }) hst
      intro c hc
      obtain ⟨hslot, d₀, hd₀, hkey, hgen⟩ := hat d.key coverage htake.symm c hc
      refine ⟨hslot, fun hin => ?_⟩
      -- whatever was recorded under the key is of the same generation
      rw [← hgen, htrue.gen d₀ hd₀ (by rw [hkey]; exact hin), hone d₀ hd₀ d hd hkey]
    · rw [fragmentCoverage_foldl]
      exact hshrink

/-- **A batch of acknowledgements.** -/
theorem Settled.applyAckCoverage_foldl (htrue : SentAs m sent) (hone : OnePerKey sent)
    (ds : List Departure) (hds : ∀ d ∈ ds, Acknowledged epoch acked d ∧ d ∈ sent) :
    ∀ {b : TileBridge}, Settled m epoch filed acked b.scheduler →
      Attributed b.fragmentCoverage sent → Settled m epoch filed acked
          ((ds.map Departure.key).foldl TileBridge.applyAckCoverage b).scheduler ∧
        Attributed ((ds.map Departure.key).foldl TileBridge.applyAckCoverage b).fragmentCoverage
          sent := by
  induction ds with
  | nil => exact fun hst hat => ⟨hst, hat⟩
  | cons d ds ih =>
    intro b hst hat
    obtain ⟨hack, hd⟩ := hds d mem_cons_self
    obtain ⟨hst', hat'⟩ := hst.applyAckCoverage hat htrue hone hack hd
    exact ih (fun d' hd' => hds d' (mem_cons_of_mem _ hd')) hst' hat'

end Credit

/-! ### Runs -/

theorem Scheduler.retirePasses_items {s : Scheduler} {x y : UInt8} {ps : List UInt8} {k : Handle}
    {w' : TileWork} (hw' : (s.retirePasses x y ps).work.get k = some w') :
    ∃ w, s.work.get k = some w ∧ w'.key = w.key ∧ (w'.state = .acked → w.state = .acked) := by
  rw [Scheduler.get_retirePasses] at hw'
  split at hw'
  · obtain ⟨w, hw, rfl⟩ := map_eq_some_iff.1 hw'
    refine ⟨w, hw, ?_, fun hst => supersede_state_ne (by decide) hst⟩
    unfold supersede
    split <;> rfl
  · exact ⟨w', hw', rfl, id⟩

namespace BridgeRun

variable {r : BridgeRun} {w : TileWork}

/-- What holds in every state of a run. -/
structure Booked (r : BridgeRun) : Prop where
  accounts : AckBook r.bridge.scheduler.slots r.bridge.scheduler.work.get r.epoch r.filed r.acked
  attributed : Attributed r.bridge.fragmentCoverage r.sent
  sentAs : SentAs r.bridge.scheduler.slots r.sent
  dropped : ∀ d ∈ r.dropped, ∃ d' ∈ r.acked, d'.key.slot = d.key.slot ∧ d'.epoch = d.epoch

theorem SentAs.of_grid {m m' : SlotMap} {sent : List Departure} (ht : SentAs m sent)
    (hgrid : ∀ x y, m'.InGrid x y → m.InGrid x y) : SentAs m' sent :=
  ⟨fun d hd hin => ht.gen d hd (hgrid _ _ hin), ht.pass⟩

theorem Booked.congr (h : r.Booked) {b : TileBridge} (hb : b.scheduler = r.bridge.scheduler)
    (hat : Attributed b.fragmentCoverage r.sent) : { r with bridge := b }.Booked := by
  refine ⟨?_, hat, ?_, h.dropped⟩
  · simp only [hb]
    exact h.accounts
  · simp only [hb]
    exact h.sentAs

theorem Booked.withEmitter (h : r.Booked) (e : ReliableTileEmitter) : (r.withEmitter e).Booked :=
  h.congr rfl h.attributed

theorem Booked.cancel (h : r.Booked) (x y : UInt8) : (r.cancel x y).Booked :=
  h.congr rfl (h.attributed.shrink fun _ _ hget => get_dropCdf53ForTile hget)

theorem attributed_bump (h : r.Booked) (x y : UInt8) :
    Attributed (r.bump x y).bridge.fragmentCoverage (r.bump x y).sent := by
  simp only [bump, bumpGeneration, settleSupersededPalettes]
  split
  · exact h.attributed.unbundle x y
  · exact h.attributed

theorem bump_logs (r : BridgeRun) (x y : UInt8) :
    (r.bump x y).sent = r.sent ∧ (r.bump x y).acked = r.acked ∧
      (r.bump x y).dropped = r.dropped := by
  simp only [bump, and_self]

theorem Booked.bump (h : r.Booked) (x y : UInt8) : (r.bump x y).Booked := by
  obtain ⟨hsent, hacked, hdropped⟩ := bump_logs r x y
  obtain ⟨hslots, hwork, -⟩ := Scheduler.bumpGenerationCollecting_spec r.bridge.scheduler x y
  have hitems : AckBook r.bridge.scheduler.slots
      (r.bridge.scheduler.retirePasses x y Scheduler.passIndices).work.get r.epoch r.filed
        r.acked :=
    h.accounts.of_items fun k w' hw' => Scheduler.retirePasses_items hw'
  refine ⟨?_, attributed_bump h x y, ?_, ?_⟩
  · rw [scheduler_bump, epoch_bump, filed_bump, hslots, hwork, hacked]
    exact hitems.bump x y
  · rw [scheduler_bump, hslots, hsent]
    refine SentAs.of_grid h.sentAs ?_
    simp [SlotMap.InGrid, SlotMap.bumpGeneration]
  · rw [hdropped, hacked]
    exact h.dropped

/-- Filing an item under a handle not used before. -/
theorem ackBook_file {s : Scheduler} {epoch : UInt8 × UInt8 → ℕ} {filed : Handle → Option ℕ}
    {acked : List Departure} (ha : AckBook s.slots s.work.get epoch filed acked)
    (hnew : filed (s.file w).2 = none) (hpass : w.passIdx.toNat < passSlots)
    (hst : w.state = .pending) :
    AckBook (s.file w).1.slots (s.file w).1.work.get epoch
      (Function.update filed (s.file w).2 (some (epoch w.tile))) acked := by
  obtain ⟨hslots, hget⟩ := Scheduler.file_spec s w
  have hitems : AckBook s.slots (s.retirePasses w.tileX w.tileY [w.passIdx]).work.get epoch filed
      acked := ha.of_items fun k w' hw' => Scheduler.retirePasses_items hw'
  rw [hslots, hget]
  exact hitems.file hnew hpass hst

theorem sentAs_file {s : Scheduler} {sent : List Departure} (ht : SentAs s.slots sent)
    (w : TileWork) : SentAs (s.file w).1.slots sent := by
  refine SentAs.of_grid (m := s.slots) ht ?_
  rw [(Scheduler.file_spec s w).1]
  simp [SlotMap.InGrid, SlotMap.setHandle]

theorem Booked.enqueue (h : r.Booked) {now : Instant} (hpass : w.passIdx.toNat < passSlots)
    (hnew : r.filed (r.bridge.scheduler.file (w.queued now)).2 = none) :
    (r.enqueue w now).Booked :=
  ⟨ackBook_file h.accounts hnew hpass rfl, h.attributed, sentAs_file h.sentAs (w.queued now),
    h.dropped⟩

theorem Booked.refine (h : r.Booked) (hpass : w.passIdx.toNat < passSlots)
    (hst : w.state = .pending) (hnew : r.filed (r.bridge.scheduler.file w).2 = none) :
    (r.refine w).Booked :=
  ⟨ackBook_file h.accounts hnew hpass hst, h.attributed, sentAs_file h.sentAs w, h.dropped⟩

/-- The handles a list of items is filed under were not used before. -/
def FreshHandles : BridgeRun → List TileWork → Prop
  | _, [] => True
  | r, w :: ws =>
    r.filed (r.bridge.scheduler.file w).2 = none ∧ FreshHandles (r.refine w) ws

def FreshHandles.decidable : ∀ (r : BridgeRun) (ws : List TileWork), Decidable (FreshHandles r ws)
  | _, [] => .isTrue trivial
  | r, w :: ws =>
    have := FreshHandles.decidable (r.refine w) ws
    inferInstanceAs (Decidable (_ ∧ FreshHandles (r.refine w) ws))

instance (r : BridgeRun) (ws : List TileWork) : Decidable (FreshHandles r ws) :=
  FreshHandles.decidable r ws

theorem Booked.refine_foldl (ws : List TileWork) :
    ∀ {r : BridgeRun}, r.Booked →
      (∀ w ∈ ws, w.passIdx.toNat < passSlots ∧ w.state = .pending) →
      FreshHandles r ws → (ws.foldl BridgeRun.refine r).Booked := by
  induction ws with
  | nil => exact fun h _ _ => h
  | cons w ws ih =>
    intro r h hws hnew
    obtain ⟨hpass, hst⟩ := hws w mem_cons_self
    exact ih (h.refine hpass hst hnew.1) (fun v hv => hws v (mem_cons_of_mem _ hv)) hnew.2

/-! ### Drains and acknowledgements -/

theorem Booked.ticked (h : r.Booked) (args : DrainArgs) (frame : ℕ) :
    (r.ticked args frame).Booked := by
  have hitems := (Scheduler.tick_items r.bridge.scheduler args.budget args.share args.now
    (holdsPass r.bridge.emitter)).1
  refine ⟨?_, h.attributed, ?_, h.dropped⟩
  · simp only [BridgeRun.ticked]
    refine h.accounts.of_items ?_
    intro k w' hw'
    obtain ⟨v, hv, rfl | ⟨-, rfl⟩⟩ := hitems k w' hw'
    · exact ⟨w', hv, rfl, id⟩
    · exact ⟨v, hv, rfl, nofun⟩
  · simp only [BridgeRun.ticked]
    exact h.sentAs

theorem attributed_emit (h : r.Booked) (args : DrainArgs) (frame : ℕ) (e : SentWork) :
    Attributed (emit args frame r e).bridge.fragmentCoverage
      (emit args frame r e).sent := by
  by_cases hbig : args.maxFrag < e.work.payload.length
  · simp only [emit, emitWork, if_pos hbig]
    exact h.attributed
  · simp only [emit, emitWork, if_neg hbig]
    exact h.attributed.record (d := r.departure args frame e) rfl rfl

theorem sentAs_emit (h : r.Booked) (args : DrainArgs) (frame : ℕ) {e : SentWork}
    (hfresh : r.Fresh e) :
    SentAs r.bridge.scheduler.slots (emit args frame r e).sent := by
  by_cases hbig : args.maxFrag < e.work.payload.length
  · simp only [emit, if_pos hbig]
    exact h.sentAs
  · simp only [emit, if_neg hbig]
    constructor
    · intro d hd hin
      rcases mem_append.1 hd with hd | hd
      · exact h.sentAs.gen d hd hin
      · obtain rfl := mem_singleton.1 hd
        obtain ⟨hfiled, hgen⟩ := hfresh.current hin
        simp only [departure, hfiled, getD_some]
        exact hgen
    · intro d hd
      rcases mem_append.1 hd with hd | hd
      · exact h.sentAs.pass d hd
      · obtain rfl := mem_singleton.1 hd
        exact hfresh.pass

theorem Booked.emit (h : r.Booked) (args : DrainArgs) (frame : ℕ) {e : SentWork}
    (hfresh : r.Fresh e) : (BridgeRun.emit args frame r e).Booked := by
  refine ⟨?_, attributed_emit h args frame e, ?_, h.dropped⟩
  · rw [scheduler_emit]
    exact h.accounts.modifySlot e.work.tileX e.work.tileY (fun _ => rfl) (fun _ => rfl)
  · rw [scheduler_emit]
    refine SentAs.of_grid (sentAs_emit h args frame hfresh) ?_
    simp [SlotMap.InGrid, Scheduler.frameLabel, SlotMap.labelOrAssign]

/-- What is cached under the key of a transmission is of its generation. -/
theorem cached_spec (hone : OnePerKey r.sent) {d d' : Departure} (hd : d ∈ r.sent)
    (hd' : r.cached d.key = some d') : d'.key = d.key ∧ d'.epoch = d.epoch := by
  unfold cached at hd'
  split at hd'
  · have hkey : d'.key = d.key := by simpa using find?_some hd'
    have hmem : d' ∈ r.sent := mem_reverse.1 (mem_of_find?_eq_some hd')
    exact ⟨hkey, hone d' hmem d hd hkey⟩
  · cases hd'

theorem Booked.ack (h : r.Booked) (hstep : r.InStep) (hone : OnePerKey r.sent) {ds : List Departure}
    (hds : ∀ d ∈ ds, d ∈ r.sent ∧
      (wireGen d.epoch = wireGen (r.epoch d.key.tile) → d.epoch = r.epoch d.key.tile)) :
    (r.ack ds).Booked := by
  have hst : Settled r.bridge.scheduler.slots r.epoch r.filed (r.acked ++ ds) r.bridge.scheduler :=
    ⟨fun _ _ hin => hin, hstep, h.accounts.mono ds⟩
  have hack : ∀ d ∈ ds, Acknowledged r.epoch (r.acked ++ ds) d ∧ d ∈ r.sent :=
    fun d hd => ⟨⟨List.mem_append_right _ hd, (hds d hd).2⟩, (hds d hd).1⟩
  obtain ⟨hst', hat'⟩ := Settled.applyAckCoverage_foldl h.sentAs hone ds hack
    (b := { r.bridge with emitter := r.bridge.emitter.onAck (ds.map Departure.key) }) hst
      h.attributed
  refine ⟨hst'.accounts, hat', SentAs.of_grid h.sentAs hst'.grid, ?_⟩
  intro d hd
  rcases List.mem_append.1 hd with hd | hd
  · obtain ⟨d', hd', he⟩ := h.dropped d hd
    exact ⟨d', List.mem_append_left _ hd', he⟩
  · obtain ⟨d', hd', he⟩ := List.mem_filterMap.1 hd
    obtain ⟨hkey, hepoch⟩ := cached_spec hone (hds d' hd').1 he
    exact ⟨d', List.mem_append_right _ hd', by rw [hkey], hepoch.symm⟩

/-! ### The condition on a run -/

/-- No step sends a pass under a key that a transmission of another generation has, acknowledges a
transmission whose generation has come round to the tile's current one, or files an item under a
handle used before. -/
def Careful (r : BridgeRun) : BridgeOp → Prop
  | .dispatchTile x y codec payload now =>
    ((r.cancel x y).bump x y).filed
      (((r.cancel x y).bump x y).bridge.scheduler.file
        ((singlePass x y (r.nextGen x y) codec payload now).queued now)).2 = none
  | .enqueueCdf53Generation x y enc now =>
    FreshHandles ((r.withEmitter (r.bridge.emitter.cancelForTile (x, y))).bump x y)
      (Scheduler.subsetItems x y (r.nextGen x y) enc.presentPasses (enc.passes.map Prod.snd) now)
  | .strandedReenqueue x y enc now => FreshHandles r (strandedItems r.bridge x y enc now)
  | .drain frame timestampUs maxFrag budget share now =>
    OnePerKey (r.drain (drainArgs frame timestampUs maxFrag budget share now) frame).sent
  | .ack places =>
    ∀ d ∈ r.departures places,
      wireGen d.epoch = wireGen (r.epoch d.key.tile) → d.epoch = r.epoch d.key.tile
  | _ => True

instance (r : BridgeRun) : ∀ op, Decidable (r.Careful op)
  | .dispatchTile .. => inferInstanceAs (Decidable (_ = _))
  | .enqueueCdf53Generation .. => inferInstanceAs (Decidable (FreshHandles _ _))
  | .strandedReenqueue .. => inferInstanceAs (Decidable (FreshHandles _ _))
  | .drain .. => inferInstanceAs (Decidable (OnePerKey _))
  | .ack places => inferInstanceAs (Decidable (∀ d ∈ r.departures places, _))
  | .supersedeTile .. | .onNack _ | .tickBudgeted .. | .retire _ => .isTrue trivial

theorem mem_departures {places : List ℕ} {d : Departure} (hd : d ∈ r.departures places) :
    d ∈ r.sent := by
  obtain ⟨i, _, hi⟩ := mem_filterMap.1 hd
  exact mem_of_getElem? hi

theorem sent_refine_foldl (ws : List TileWork) (r : BridgeRun) :
    (ws.foldl refine r).sent = r.sent := by
  induction ws generalizing r with
  | nil => rfl
  | cons w ws ih =>
    rw [foldl_cons, ih]
    rfl

theorem strandedItems_spec {b : TileBridge} {x y : UInt8} {enc : Cdf53Encoded} {now : Instant}
    (hw : w ∈ strandedItems b x y enc now) :
    w.passIdx.toNat < passSlots ∧ w.state = .pending := by
  unfold strandedItems at hw
  simp only at hw
  split at hw
  · cases hw
  · split at hw
    · cases hw
    · exact ⟨(Scheduler.subsetItems_spec (subsetMask_lt fun q hq => onlyUnacked_pass_lt hq)
        hw).2.2.2, Watch.subsetItems_pending hw⟩

theorem sent_step (r : BridgeRun) (op : BridgeOp)
    (hop : ∀ frame timestampUs maxFrag budget share now,
      op ≠ .drain frame timestampUs maxFrag budget share now) : (r.step op).sent = r.sent := by
  cases op with
  | drain frame timestampUs maxFrag budget share now => exact absurd rfl (hop _ _ _ _ _ _)
  | enqueueCdf53Generation x y enc now => exact (sent_refine_foldl _ _).trans (bump_logs _ x y).1
  | strandedReenqueue x y enc now => exact sent_refine_foldl _ _
  | _ => simp only [step, enqueue, bump, cancel, withEmitter, ack]

/-- **What every careful step preserves.** -/
theorem Booked.step (h : r.Booked) (hstep : r.InStep) (hone : OnePerKey r.sent) {op : BridgeOp}
    (hop : r.Careful op) : (r.step op).Booked := by
  cases op with
  | dispatchTile x y codec payload now =>
    exact ((h.cancel x y).bump x y).enqueue (by decide : (0 : UInt8).toNat < passSlots) hop
  | supersedeTile x y => exact (h.cancel x y).bump x y
  | enqueueCdf53Generation x y enc now =>
    refine Booked.refine_foldl _ ((h.withEmitter _).bump x y) (fun w hw => ?_) hop
    exact ⟨(Scheduler.subsetItems_spec enc.present_lt hw).2.2.2, Watch.subsetItems_pending hw⟩
  | strandedReenqueue x y enc now =>
    exact Booked.refine_foldl _ h (fun w hw => strandedItems_spec hw) hop
  | drain frame timestampUs maxFrag budget share now =>
    exact drain_inv (I := Booked) (fun h hfresh => h.emit _ _ hfresh) hstep (h.ticked _ _)
  | ack places => exact h.ack hstep hone fun d hd => ⟨mem_departures hd, hop d hd⟩
  | onNack | tickBudgeted | retire => exact h.withEmitter _

theorem onePerKey_step (hone : OnePerKey r.sent) {op : BridgeOp} (hop : r.Careful op) :
    OnePerKey (r.step op).sent := by
  by_cases hdrain : ∀ frame timestampUs maxFrag budget share now,
      op ≠ .drain frame timestampUs maxFrag budget share now
  · rw [sent_step r op hdrain]
    exact hone
  · push Not at hdrain
    obtain ⟨frame, timestampUs, maxFrag, budget, share, now, rfl⟩ := hdrain
    exact hop

theorem booked_start (cols rows capacity : ℕ) (now : Instant) :
    (start cols rows capacity now).Booked := by
  have hhandle : ∀ x y p, (start cols rows capacity now).bridge.scheduler.slots.handle x y p =
      none := SlotMap.handle_new cols rows
  refine ⟨⟨by simp [hhandle], by simp [hhandle], ?_, nofun⟩, nofun, ⟨nofun, nofun⟩, nofun⟩
  intro x y t p ht hp hbit
  obtain ⟨i, _, ht⟩ := bind_eq_some_iff.1 ht
  obtain ⟨_, rfl⟩ := List.getElem?_eq_some_iff.1 ht
  simp [start, Scheduler.new, SlotMap.new] at hbit

/-- Whatever the server regards as acknowledged was: a pass in the mask of a tile's current
generation, an item marked acknowledged, and a pass dropped from the retransmit cache by an
acknowledgement. -/
structure Credited (r : BridgeRun) : Prop where
  mask : ∀ x y t (p : UInt8), r.bridge.scheduler.slots.slot x y = some t → p.toNat < passSlots →
    hasBit t.ackedMask p.toNat →
    ∃ d ∈ r.acked, d.key.slot = (x, y, p) ∧ d.epoch = r.epoch (x, y)
  item : ∀ h w, r.bridge.scheduler.work.get h = some w → w.state = .acked →
    ∃ d ∈ r.acked, d.key.slot = w.key ∧ r.filed h = some d.epoch
  cache : ∀ d ∈ r.dropped, ∃ d' ∈ r.acked, d'.key.slot = d.key.slot ∧ d'.epoch = d.epoch

/-- **Acknowledgements credit the content they name**, in every state of a careful run. -/
theorem acks_credit_their_content (cols rows capacity : ℕ) (now : Instant) (ops : List BridgeOp)
    (hops : Along Careful step (start cols rows capacity now) ops) :
    (run step (start cols rows capacity now) ops).Credited := by
  obtain ⟨-, hbooked, -⟩ := hops.inv (I := fun r => r.InStep ∧ r.Booked ∧ OnePerKey r.sent)
    (fun r op h hop => ⟨h.1.step op, h.2.1.step h.1 h.2.2 hop, onePerKey_step h.2.2 hop⟩)
    ⟨inStep_start cols rows capacity now, booked_start cols rows capacity now, nofun⟩
  exact ⟨hbooked.accounts.mask, hbooked.accounts.item, hbooked.dropped⟩

/-- A CDF 5/3 tile with its first pass only. -/
def firstPass : Cdf53Encoded := ⟨1, [(0, [0, 1])], by decide, by decide⟩

/-- A tile changes in two frames; both generations are acknowledged, the older one late. -/
def twoFrames : List BridgeOp :=
  [dirty, drainAll 5, .enqueueCdf53Generation 0 0 firstPass 0, drainAll 6, .ack [1], .ack [0]]

theorem acks_credit_their_content_twoFrames :
    Along Careful step (start 1 1 16 0) twoFrames ∧
      ((run step (start 1 1 16 0) twoFrames).bridge.scheduler.slots.slot 0 0).map
        TileSlot.ackedMask = some 1 ∧
      (run step (start 1 1 16 0) twoFrames).Credited :=
  ⟨by decide +kernel, by decide +kernel,
    acks_credit_their_content 1 1 16 0 twoFrames (by decide +kernel)⟩

/-- A tile changes twice in a frame, and the older generation is acknowledged. -/
def twoInOneFrame : List BridgeOp :=
  [dirty, drainAll 5, .enqueueCdf53Generation 0 0 firstPass 0, drainAll 5, .ack [0]]

/-- **The acknowledgement of an older generation credits the newer one**: only generation 1 is
acknowledged, but pass 0 of generation 2 is in the mask and has left the retransmit cache. -/
theorem older_ack_credits_newer :
    (run step (start 1 1 16 0) twoInOneFrame).acked = [⟨⟨0x80000005, 0, 0, 0⟩, 1, 1, 5⟩] ∧
      (run step (start 1 1 16 0) twoInOneFrame).epoch (0, 0) = 2 ∧
      ((run step (start 1 1 16 0) twoInOneFrame).bridge.scheduler.slots.slot 0 0).map
        TileSlot.ackedMask = some 1 ∧
      (run step (start 1 1 16 0) twoInOneFrame).dropped = [⟨⟨0x80000005, 0, 0, 0⟩, 2, 2, 5⟩] ∧
      ((run step (start 1 1 16 0) twoInOneFrame).bridge.emitter.cache.get
        ⟨0x80000005, 0, 0, 0⟩).isNone ∧
      ¬ (run step (start 1 1 16 0) twoInOneFrame).Credited := by
  have hacked : (run step (start 1 1 16 0) twoInOneFrame).acked =
      [⟨⟨0x80000005, 0, 0, 0⟩, 1, 1, 5⟩] := by decide +kernel
  have hdropped : (run step (start 1 1 16 0) twoInOneFrame).dropped =
      [⟨⟨0x80000005, 0, 0, 0⟩, 2, 2, 5⟩] := by decide +kernel
  refine ⟨hacked, by decide +kernel, by decide +kernel, hdropped, by decide +kernel, ?_⟩
  intro h
  obtain ⟨d, hd, -, he⟩ := h.cache ⟨⟨0x80000005, 0, 0, 0⟩, 2, 2, 5⟩
    (by rw [hdropped]; exact mem_singleton_self _)
  rw [hacked, mem_singleton] at hd
  rw [hd] at he
  cases he

end BridgeRun

end Ghostframe.Transport
