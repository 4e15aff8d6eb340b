import Ghostframe.Lib.Dict
import Ghostframe.Lib.Xor
import Ghostframe.Protocol.Wire

/-!
# The client's parity decoder

`ParityDecoder` keeps a bounded window of received source datagrams and the
parity envelopes that could not recover anything when they arrived.

* `tryRecover`: exactly one source of the group is missing, and the XOR of the
  others with the parity is a tile datagram.

The buffered envelopes are an insertion-ordered map, modelled as the list of its
entries.
-/

namespace Ghostframe.Client

open Protocol

/-- `a` is at or before `m`, by signed distance of 32-bit numbers:
`a.wrapping_sub(m) as i32 <= 0`. -/
def seqAtOrBefore (a m : UInt32) : Bool :=
  decide (a - m = 0) || decide (2 ^ 31 ≤ (a - m).toNat)

/-- `OrderedMap::set`: a new key goes to the end, a known one keeps its place. -/
def orderedSet {κ ν : Type*} [DecidableEq κ] (entries : List (κ × ν)) (k : κ) (v : ν) :
    List (κ × ν) :=
  if entries.any fun e => decide (e.1 = k) then
    entries.map fun e => if e.1 = k then (k, v) else e
  else entries ++ [(k, v)]

/-- `OrderedMap::remove`. -/
def orderedRemove {κ ν : Type*} [DecidableEq κ] (entries : List (κ × ν)) (k : κ) : List (κ × ν) :=
  entries.eraseP fun e => decide (e.1 = k)

/-- `PARITY_WINDOW`: how many sources the client keeps. -/
def parityWindow : ℕ := 40

/-- The decoder's state. -/
structure ParityDecoder where
  window : Dict UInt32 Bytes := Dict.empty
  order : List UInt32 := []
  pendingParities : List (UInt32 × TileParityEnvelope) := []
  newestWireSeq : Option UInt32 := none
  windowCapacity : ℕ
  maxEvicted : Option UInt32 := none

namespace ParityDecoder

/-- `ParityDecoder::new`. -/
def new (windowCapacity : ℕ) : ParityDecoder := { windowCapacity := windowCapacity }

/-- The member numbers of a group, in order. -/
def members (parity : TileParityEnvelope) : List UInt32 :=
  (List.range parity.k.toNat).map fun i => parity.groupFirstWireSeq + .ofNat i

/-- `covers`: is `ws` one of the group's sources? -/
def covers (parity : TileParityEnvelope) (ws : UInt32) : Bool :=
  decide ((ws - parity.groupFirstWireSeq).toNat < parity.k.toNat)

variable (d : ParityDecoder) (parity : TileParityEnvelope)

/-- The group's sources absent from the window. -/
def missingIn : List UInt32 :=
  (members parity).filter fun ws => !d.window.contains ws

/-- The group's sources in the window. -/
def receivedIn : List Bytes :=
  (members parity).filterMap fun ws => d.window.get? ws

/-- The last `len` bytes of `out`, when it has that many and they are a tile datagram. -/
def trim (out : Bytes) (len : ℕ) : Option Bytes :=
  if len > out.length then none
  else
    let recovered := out.drop (out.length - len)
    if isTileDatagram recovered then some recovered else none

/-- `try_recover`. -/
def tryRecover : Option Bytes :=
  match d.missingIn parity with
  | [missingWs] =>
    -- a source absent only because it was evicted was probably received
    if d.maxEvicted.any fun m => seqAtOrBefore missingWs m then none
    else
      let received := d.receivedIn parity
      let targetLen := max parity.parityPayload.length (maxLength received)
      let out :=
        xorAllInto (xorInto (List.replicate targetLen 0) parity.parityPayload) received
      match parity.sourceLens[(missingWs - parity.groupFirstWireSeq).toNat]? with
      | none => none
      | some len => trim out len.toNat
  | _ => none

/-- The eviction loop of `record_source`. -/
def evictWindow : List UInt32 → ParityDecoder → ParityDecoder
  | [], d => { d with order := [] }
  | oldest :: rest, d =>
    if d.window.size > d.windowCapacity then
      evictWindow rest
        { d with
          window := d.window.erase oldest
          maxEvicted :=
            some (match d.maxEvicted with
              | some m => if seqAtOrBefore oldest m then m else oldest
              | none => oldest) }
    else { d with order := oldest :: rest }

/-- A source enters the window, unless it is there. -/
def store (ws : UInt32) (bytes : Bytes) : ParityDecoder :=
  let d1 :=
    { d with
      newestWireSeq :=
        some (match d.newestWireSeq with
          | some prev => max prev ws
          | none => ws) }
  if d1.window.contains ws then d1
  else evictWindow (d1.order ++ [ws]) { d1 with window := d1.window.insert ws bytes }

/-- The first buffered parity that covers `ws` and recovers something. -/
def probe (ws : UInt32) : Option (UInt32 × Bytes) :=
  d.pendingParities.findSome? fun e =>
    if covers e.2 ws then (d.tryRecover e.2).map fun r => (e.1, r) else none

/-- `record_source`. -/
def recordSource (ws : UInt32) (bytes : Bytes) :
    ParityDecoder × Option Bytes :=
  let d1 := d.store ws bytes
  match d1.probe ws with
  | some (first, recovered) =>
    ({ d1 with pendingParities := orderedRemove d1.pendingParities first }, some recovered)
  | none => (d1, none)

/-- `prune_pending`: drop the parities behind the window's horizon, then down to the capacity. -/
def prunePending : ParityDecoder :=
  let kept :=
    match d.newestWireSeq with
    | some newest =>
      let horizon := newest.toNat - d.windowCapacity % 2 ^ 32
      d.pendingParities.filter fun (e : UInt32 × TileParityEnvelope) =>
        decide (min (e.1.toNat + (e.2.k.toNat - 1)) (2 ^ 32 - 1) ≥ horizon)
    | none => d.pendingParities
  { d with pendingParities := kept.drop (kept.length - d.windowCapacity) }

/-- `receive_parity`. -/
def receiveParity (env : TileParityEnvelope) : ParityDecoder × Option Bytes :=
  match d.tryRecover env with
  | some recovered => (d, some recovered)
  | none =>
    if d.missingIn env = [] then (d, none)
    else
      ({ d with
          pendingParities := orderedSet d.pendingParities env.groupFirstWireSeq env }.prunePending,
        none)

/-! ### What each operation does -/

variable (d : ParityDecoder)

theorem evictWindow_spec (order : List UInt32) (d : ParityDecoder) :
    let d' := evictWindow order d
    d'.pendingParities = d.pendingParities ∧ d'.newestWireSeq = d.newestWireSeq ∧
      d'.windowCapacity = d.windowCapacity ∧
      ∀ ws b, d'.window.get? ws = some b → d.window.get? ws = some b := by
  dsimp only
  fun_induction evictWindow order d with
  | case1 | case3 => exact ⟨rfl, rfl, rfl, fun _ _ h => h⟩
  | case2 oldest rest d _ ih =>
    obtain ⟨h1, h2, h3, h4⟩ := ih
    exact ⟨h1, h2, h3, fun ws b h => (Dict.get?_of_get?_erase (h4 ws b h)).2⟩

theorem evictWindow_of_le (order : List UInt32) (h : d.window.size ≤ d.windowCapacity) :
    (evictWindow order d).window = d.window ∧ (evictWindow order d).maxEvicted = d.maxEvicted := by
  cases order with
  | nil => exact ⟨rfl, rfl⟩
  | cons oldest rest =>
    unfold evictWindow
    rw [if_neg (by omega)]
    exact ⟨rfl, rfl⟩

theorem store_pendingParities (ws : UInt32) (bytes : Bytes) :
    (d.store ws bytes).pendingParities = d.pendingParities := by
  unfold store
  simp only
  split_ifs
  · rfl
  · exact (evictWindow_spec _ _).1

theorem store_windowCapacity (ws : UInt32) (bytes : Bytes) :
    (d.store ws bytes).windowCapacity = d.windowCapacity := by
  unfold store
  simp only
  split_ifs
  · rfl
  · exact (evictWindow_spec _ _).2.2.1

/-- What is in the window after a source is that source, or was there before. -/
theorem store_get? {ws ws' : UInt32} {bytes b : Bytes}
    (h : (d.store ws bytes).window.get? ws' = some b) :
    ws' = ws ∨ d.window.get? ws' = some b := by
  unfold store at h
  simp only at h
  split_ifs at h
  · exact .inr h
  · have hget := (evictWindow_spec _ _).2.2.2 _ _ h
    rw [Dict.get?_insert] at hget
    split_ifs at hget with hws
    · exact .inl hws
    · exact .inr hget

/-- A new source that fits is added to the window. -/
theorem store_of_lt {ws : UInt32} (bytes : Bytes) (hnew : d.window.get? ws = none)
    (h : d.window.size < d.windowCapacity) :
    (d.store ws bytes).window = d.window.insert ws bytes ∧
      (d.store ws bytes).maxEvicted = d.maxEvicted := by
  have hc : d.window.contains ws = false := by simp [Dict.contains, hnew]
  have hsize : (d.window.insert ws bytes).size ≤ d.windowCapacity := by
    rw [Dict.size, Dict.keys_insert_of_get?_eq_none _ hnew, List.length_cons]
    exact h
  unfold store
  simp only [hc, Bool.false_eq_true, if_false]
  exact evictWindow_of_le _ _ hsize

theorem store_newestWireSeq (ws : UInt32) (bytes : Bytes) :
    (d.store ws bytes).newestWireSeq =
      some (match d.newestWireSeq with
        | some prev => max prev ws
        | none => ws) := by
  unfold store
  simp only
  split_ifs
  · rfl
  · exact (evictWindow_spec _ _).2.1

/-- A source that completes no buffered group changes only the window. -/
theorem recordSource_of_probe_eq_none {ws : UInt32} {bytes : Bytes}
    (h : (d.store ws bytes).probe ws = none) :
    d.recordSource ws bytes = (d.store ws bytes, none) := by
  simp only [recordSource, h]

theorem prunePending_sublist : (d.prunePending).pendingParities.Sublist d.pendingParities := by
  unfold prunePending
  refine (List.drop_sublist _ _).trans ?_
  split
  · exact List.filter_sublist
  · exact List.Sublist.refl _

/-- Parities that reach the horizon and fit the capacity all stay. -/
theorem prunePending_eq_self
    (hhorizon : ∀ newest, d.newestWireSeq = some newest → ∀ e ∈ d.pendingParities,
      newest.toNat - d.windowCapacity % 2 ^ 32 ≤
        min (e.1.toNat + (e.2.k.toNat - 1)) (2 ^ 32 - 1))
    (hlen : d.pendingParities.length ≤ d.windowCapacity) : d.prunePending = d := by
  obtain ⟨window, order, pending, newest, capacity, evicted⟩ := d
  unfold prunePending
  cases newest with
  | none => simp only [Nat.sub_eq_zero_of_le hlen, List.drop_zero]
  | some newest =>
    have hall : pending.filter (fun (e : UInt32 × TileParityEnvelope) =>
        decide (min (e.1.toNat + (e.2.k.toNat - 1)) (2 ^ 32 - 1) ≥
          newest.toNat - capacity % 2 ^ 32)) = pending :=
      List.filter_eq_self.2 fun e he => decide_eq_true (hhorizon newest rfl e he)
    simp only [hall, Nat.sub_eq_zero_of_le hlen, List.drop_zero]

end ParityDecoder

theorem mem_orderedSet {κ ν : Type*} [DecidableEq κ] {entries : List (κ × ν)} {k : κ} {v : ν}
    {e : κ × ν} (h : e ∈ orderedSet entries k v) : e = (k, v) ∨ e ∈ entries := by
  unfold orderedSet at h
  split_ifs at h
  · obtain ⟨e', he', heq⟩ := List.mem_map.1 h
    split_ifs at heq
    · exact .inl heq.symm
    · exact .inr (heq ▸ he')
  · rcases List.mem_append.1 h with h | h
    · exact .inr h
    · exact .inl (List.mem_singleton.1 h)

end Ghostframe.Client
