import Ghostframe.Client.ParityDecoder
import Ghostframe.Lib.Run
import Ghostframe.Transport.Parity

/-!
# Parity recovery is exact

A group of consecutive tile datagrams goes through the server's `GroupBuilder`,
its parity envelope over the wire, and the envelope with some of the sources into
a fresh `ParityDecoder`, in any order.

* `Lacks`: what the decoder at most has seen of a group; with two sources missing
  it recovers nothing (`recovered_eq_nil`), whatever the window's capacity;
* `Holds`: what it exactly has seen, while the window is large enough;
* `fec_recovery_exact`: the two together, for groups of up to 255 sources that
  fit the window but for one;
* `rebuilt_never_received`: whatever the window has forgotten, only a source that
  never arrived is rebuilt.
-/

namespace Ghostframe.Fec

open Protocol Client Transport Dict GroupBuilder List ParityDecoder
open scoped List

/-- A datagram the emitter feeds to the group builder: a tile datagram long enough to be stamped
with a `wire_seq`, whose length fits the table of the envelope. -/
structure TileSource (s : Bytes) : Prop where
  tile : isTileDatagram s = true
  stamped : 12 ≤ s.length
  length : s.length < 65536

/-- What reaches the decoder. -/
inductive Arrival
  | source (ws : UInt32) (bytes : Bytes)
  | parity (env : TileParityEnvelope)

/-- One arrival. -/
def arrive (d : ParityDecoder) : Arrival → ParityDecoder × Option Bytes
  | .source ws bytes => d.recordSource ws bytes
  | .parity env => d.receiveParity env

/-- Everything the decoder recovers from a sequence of arrivals. -/
def recovered : ParityDecoder → List Arrival → List Bytes
  | _, [] => []
  | d, a :: rest => (arrive d a).2.toList ++ recovered (arrive d a).1 rest

/-- The number of member `i` of the group that starts at `first`. -/
def member (first : UInt32) (i : ℕ) : UInt32 := first + .ofNat i

/-- The arrival of member `i`. -/
def sourceArrival (first : UInt32) (sources : List Bytes) (i : ℕ) : Arrival :=
  .source (member first i) (sources.getD i [])

section Group

variable {k : ℕ} {first : UInt32} {sources : List Bytes}

variable {d : ParityDecoder} {seen : List ℕ} {i : ℕ} {par : Bool} {j : ℕ}

theorem toNat_sub_member (first : UInt32) (hi : i < 2 ^ 32) :
    (member first i - first).toNat = i := by
  rw [member, UInt32.add_comm, UInt32.add_sub_cancel]
  exact UInt32.toNat_ofNat_of_lt' hi

theorem member_inj (hi : i < 2 ^ 32) (hj : j < 2 ^ 32) (h : member first i = member first j) :
    i = j := by
  rw [← toNat_sub_member first hi, ← toNat_sub_member first hj, h]

theorem filter_range_eq_singleton (hi : i < k) :
    (List.range k).filter (fun j => decide (j = i)) = [i] := by
  have hmem : i ∈ range k := mem_range.2 hi
  rw [← perm_singleton]
  refine (perm_ext_iff_of_nodup (nodup_range.filter _) (nodup_singleton i)).2 ?_
  intro j
  simp only [mem_filter, decide_eq_true_eq, mem_singleton]
  exact ⟨And.right, fun hj => ⟨hj ▸ hmem, hj⟩⟩

/-- The envelope of the group. -/
def groupEnvelope (k : ℕ) (first : UInt32) (sources : List Bytes) : TileParityEnvelope :=
  (GroupBuilder.fullGroup k first sources).envelope

theorem groupEnvelope_k (hk : k ≤ 255) : (groupEnvelope k first sources).k.toNat = k := by
  show (UInt8.ofNat k).toNat = k
  exact UInt8.toNat_ofNat_of_lt' (by simp only [UInt8.size]; omega)

theorem members_groupEnvelope (hk : k ≤ 255) :
    members (groupEnvelope k first sources) = (List.range k).map (member first) := by
  unfold members
  rw [groupEnvelope_k hk]
  rfl

theorem covers_groupEnvelope (hk : k ≤ 255) (hi : i < k) :
    covers (groupEnvelope k first sources) (member first i) = true := by
  have hsub : (member first i - (groupEnvelope k first sources).groupFirstWireSeq).toNat = i :=
    toNat_sub_member first (by omega)
  simp only [covers, hsub, groupEnvelope_k hk, decide_eq_true_eq]
  exact hi

/-! ### Two sources missing -/

/-- The decoder has at most the sources `seen`, and buffers nothing but the group's envelope. -/
structure Lacks (k : ℕ) (first : UInt32) (sources : List Bytes) (d : ParityDecoder)
    (seen : List ℕ) : Prop where
  window : ∀ i < k, d.window.contains (member first i) = true → i ∈ seen
  pending : ∀ e ∈ d.pendingParities, e.2 = groupEnvelope k first sources

theorem missingIn_eq (hk : k ≤ 255) (d : ParityDecoder) :
    d.missingIn (groupEnvelope k first sources) =
      ((List.range k).filter fun i => !d.window.contains (member first i)).map (member first) := by
  unfold missingIn
  rw [members_groupEnvelope hk, filter_map]
  rfl

/-- With at most `seen` in the window, at least the others are missing. -/
theorem Lacks.two_le_missing (hk : k ≤ 255) (h : Lacks k first sources d seen)
    (hseen : seen.length + 2 ≤ k) : 2 ≤ (d.missingIn (groupEnvelope k first sources)).length := by
  rw [missingIn_eq hk, length_map]
  set lost := (range k).filter fun i => !d.window.contains (member first i) with hlost
  have hcover : range k ⊆ seen ++ lost := by
    intro i hi
    have hik : i < k := mem_range.1 hi
    by_cases hc : d.window.contains (member first i) = true
    · exact mem_append_left _ (h.window i hik hc)
    · exact mem_append_right _ (by simp [hlost, hik, hc])
  have hle := (nodup_range.subperm hcover).length_le
  rw [length_range, length_append] at hle
  omega

theorem Lacks.tryRecover_eq_none (hk : k ≤ 255) (h : Lacks k first sources d seen)
    (hseen : seen.length + 2 ≤ k) : d.tryRecover (groupEnvelope k first sources) = none := by
  have hlen := h.two_le_missing hk hseen
  unfold tryRecover
  split
  · next missingWs hm =>
    rw [hm] at hlen
    simp at hlen
  · rfl

theorem Lacks.store (h : Lacks k first sources d seen) (hk : k ≤ 255) (hi : i < k) (bytes : Bytes) :
    Lacks k first sources (d.store (member first i) bytes) (i :: seen) := by
  refine ⟨fun j hj hc => ?_, fun e he => h.pending e (d.store_pendingParities _ _ ▸ he)⟩
  obtain ⟨b, hb⟩ := (contains_eq_true_iff _ _).1 hc
  rcases d.store_get? hb with heq | hold
  · have hji : j = i := member_inj (by omega) (by omega) heq
    exact hji ▸ mem_cons_self
  · exact mem_cons_of_mem _ (h.window j hj ((contains_eq_true_iff _ _).2 ⟨b, hold⟩))

theorem Lacks.probe_eq_none (h : Lacks k first sources d seen) (hk : k ≤ 255)
    (hseen : seen.length + 2 ≤ k) (ws : UInt32) : d.probe ws = none := by
  unfold probe
  rw [findSome?_eq_none_iff]
  intro e he
  rw [h.pending e he, h.tryRecover_eq_none hk hseen]
  simp

/-- With two of its sources missing, a group recovers nothing, in any order of arrival. -/
theorem recovered_eq_nil (hk : k ≤ 255) (arrivals : List Arrival) (d : ParityDecoder)
    (seen : List ℕ) (h : Lacks k first sources d seen)
    (harr : ∀ a ∈ arrivals, a = .parity (groupEnvelope k first sources) ∨
      ∃ i < k, a = sourceArrival first sources i)
    (hcount : seen.length + (arrivals.countP fun a => a matches .source _ _) + 2 ≤ k) :
    recovered d arrivals = [] := by
  induction arrivals generalizing d seen with
  | nil => rfl
  | cons a rest ih =>
    have hrest : ∀ b ∈ rest, _ := fun b hb => harr b (mem_cons_of_mem _ hb)
    rcases harr a mem_cons_self with rfl | ⟨i, hi, rfl⟩
    · -- the envelope: nothing to recover yet, it is buffered
      have hnone := h.tryRecover_eq_none hk (by omega)
      have hlack : Lacks k first sources
          (d.receiveParity (groupEnvelope k first sources)).1 seen := by
        simp only [receiveParity, hnone]
        split_ifs
        · exact h
        · refine ⟨h.window, fun e he => ?_⟩
          rcases mem_orderedSet ((prunePending_sublist _).subset he) with rfl | hold
          · rfl
          · exact h.pending e hold
      have hout : (d.receiveParity (groupEnvelope k first sources)).2 = none := by
        simp only [receiveParity, hnone]
        split_ifs <;> rfl
      rw [recovered, arrive, hout]
      exact ih _ _ hlack hrest hcount
    · rw [countP_cons_of_pos (by rfl)] at hcount
      have hlack := h.store hk hi (sources.getD i [])
      have hrec := d.recordSource_of_probe_eq_none
        (hlack.probe_eq_none hk (by simp only [length_cons]; omega) (member first i))
      rw [recovered, sourceArrival, arrive, hrec]
      exact ih _ _ hlack hrest (by simp only [length_cons]; omega)

/-! ### One source missing -/

/-- The decoder has exactly the sources `seen`, has evicted nothing, and has buffered the envelope
if it has arrived. -/
structure Holds (k : ℕ) (first : UInt32) (sources : List Bytes) (d : ParityDecoder)
    (seen : List ℕ) (par : Bool) : Prop where
  window : ∀ i < k, d.window.get? (member first i) = if i ∈ seen then sources[i]? else none
  size : d.window.size = seen.length
  evicted : d.maxEvicted = none
  newest : ∀ n, d.newestWireSeq = some n → n.toNat ≤ min (first.toNat + (k - 1)) (2 ^ 32 - 1)
  pending : d.pendingParities = if par then [(first, groupEnvelope k first sources)] else []

variable (hlen : sources.length = k)

theorem Holds.lacks (h : Holds k first sources d seen par) : Lacks k first sources d seen := by
  refine ⟨fun i hi hc => ?_, fun e he => ?_⟩
  · obtain ⟨b, hb⟩ := (contains_eq_true_iff _ _).1 hc
    rw [h.window i hi] at hb
    by_contra hnot
    simp [hnot] at hb
  · rw [h.pending] at he
    cases par with
    | false => simp at he
    | true => simp_all

include hlen in
/-- Everything but member `i` is in the window. -/
theorem Holds.missingIn_eq_singleton (hk : k ≤ 255) (h : Holds k first sources d seen par)
    (hi : i < k) (hseen : ∀ j < k, j ∈ seen ↔ j ≠ i) :
    d.missingIn (groupEnvelope k first sources) = [member first i] := by
  rw [missingIn_eq hk]
  have hfilter : (List.range k).filter (fun j => !d.window.contains (member first j)) =
      (List.range k).filter fun j => decide (j = i) := by
    refine List.filter_congr fun j hj => ?_
    have hjk : j < k := List.mem_range.1 hj
    by_cases hji : j = i
    · have hnot : j ∉ seen := fun hm => (hseen j hjk).1 hm hji
      have hget : d.window.get? (member first j) = none := by rw [h.window j hjk, if_neg hnot]
      simp [Dict.contains, hji ▸ hget, hji]
    · have hmem : j ∈ seen := (hseen j hjk).2 hji
      have hget : sources[j]? = some sources[j] := List.getElem?_eq_getElem (by omega)
      simp [Dict.contains, h.window j hjk, hmem, hget, hji]
  rw [hfilter, filter_range_eq_singleton hi]
  rfl

include hlen in
/-- The sources in the window are all the others. -/
theorem Holds.perm_receivedIn (hk : k ≤ 255) (h : Holds k first sources d seen par) (hi : i < k)
    (hseen : ∀ j < k, j ∈ seen ↔ j ≠ i) :
    sources.Perm (sources.getD i [] :: d.receivedIn (groupEnvelope k first sources)) := by
  have hrec : d.receivedIn (groupEnvelope k first sources) =
      ((range k).filter (fun j => j != i)).map fun j => sources.getD j [] := by
    unfold receivedIn
    rw [members_groupEnvelope hk, filterMap_map, ← filterMap_eq_map,
      filterMap_filter]
    refine filterMap_congr fun j hj => ?_
    have hjk : j < k := mem_range.1 hj
    have hget : sources[j]? = some (sources.getD j []) := by
      rw [getD_eq_getElem _ _ (by omega)]
      exact getElem?_eq_getElem (by omega)
    show d.window.get? (member first j) = _
    rw [h.window j hjk]
    by_cases hji : j = i
    · have hnot : j ∉ seen := fun hm => (hseen j hjk).1 hm hji
      rw [if_neg hnot, if_neg (by simp [hji])]
    · have hmem : j ∈ seen := (hseen j hjk).2 hji
      rw [if_pos hmem, if_pos (by simp [hji]), hget]
      rfl
  have hall : sources = (range k).map fun j => sources.getD j [] := by
    refine ext_getElem (by simp [hlen]) fun j h1 _ => ?_
    simp [getElem?_eq_getElem h1]
  rw [hrec, ← List.Nodup.erase_eq_filter nodup_range]
  nth_rewrite 1 [hall]
  exact (perm_cons_erase (mem_range.2 hi)).map _

include hlen in
/-- With the other sources in the window, the envelope recovers the missing one. -/
theorem Holds.tryRecover_eq_some (hk : k ≤ 255) (hsrc : ∀ s ∈ sources, TileSource s)
    (h : Holds k first sources d seen par) (hi : i < k) (hseen : ∀ j < k, j ∈ seen ↔ j ≠ i) :
    d.tryRecover (groupEnvelope k first sources) = some (sources.getD i []) := by
  have hperm := h.perm_receivedIn hlen hk hi hseen
  have hmem : sources.getD i [] ∈ sources := hperm.mem_iff.2 mem_cons_self
  have hfits := hsrc _ hmem
  have hlens : (groupEnvelope k first sources).sourceLens[(member first i -
      (groupEnvelope k first sources).groupFirstWireSeq).toNat]? =
        some (.ofNat (sources.getD i []).length) := by
    have hidx : (member first i - (groupEnvelope k first sources).groupFirstWireSeq).toNat = i :=
      toNat_sub_member first (by omega)
    rw [hidx]
    show (sources.map fun s => UInt16.ofNat s.length)[i]? = _
    have hlt : i < sources.length := by omega
    rw [getElem?_map, getElem?_eq_getElem hlt, getD_eq_getElem _ _ hlt]
    rfl
  have hlen16 : (UInt16.ofNat (sources.getD i []).length).toNat = (sources.getD i []).length :=
    UInt16.toNat_ofNat_of_lt' hfits.length
  have hpar : (groupEnvelope k first sources).parityPayload = xorPayloads sources := rfl
  set received := d.receivedIn (groupEnvelope k first sources) with hreceived
  have hn : maxLength sources ≤ max (xorPayloads sources).length (maxLength received) := by
    rw [length_xorPayloads]
    exact le_max_left _ _
  have hrest : ∀ s ∈ received, s.length ≤ max (xorPayloads sources).length (maxLength received) :=
    fun s hs => (length_le_maxLength hs).trans (le_max_right _ _)
  have hout := length_xor_rest hn hrest
  have hmiss := (length_le_maxLength hmem).trans hn
  rw [tryRecover, h.missingIn_eq_singleton hlen hk hi hseen]
  simp only [h.evicted, Option.any_none, Bool.false_eq_true, if_false, hlens, hpar, hlen16,
    ← hreceived]
  rw [trim, if_neg (by rw [hout]; omega), hout]
  simp only [drop_xor_eq hperm hn, hfits.tile, if_true]

include hlen in
/-- A new member arrives while there is room for it. -/
theorem Holds.store (hk : k ≤ 255) (h : Holds k first sources d seen par) (hj : j < k)
    (hnew : j ∉ seen) (hroom : seen.length < d.windowCapacity) :
    Holds k first sources (d.store (member first j) (sources.getD j [])) (j :: seen) par := by
  have hget : d.window.get? (member first j) = none := by rw [h.window j hj, if_neg hnew]
  obtain ⟨hwin, hev⟩ := d.store_of_lt (sources.getD j []) hget (by rw [h.size]; exact hroom)
  have hmember : (member first j).toNat ≤ min (first.toNat + (k - 1)) (2 ^ 32 - 1) := by
    rw [member, UInt32.toNat_add, UInt32.toNat_ofNat_of_lt' (by simp only [UInt32.size]; omega)]
    omega
  refine ⟨fun i hi => ?_, ?_, hev.trans h.evicted, fun n hn => ?_, ?_⟩
  · rw [hwin, get?_insert]
    by_cases hij : i = j
    · subst hij
      rw [if_pos rfl, if_pos mem_cons_self, getD_eq_getElem _ _ (by omega),
        getElem?_eq_getElem (by omega)]
    · rw [if_neg fun heq => hij (member_inj (by omega) (by omega) heq), h.window i hi]
      simp only [mem_cons, hij, false_or]
  · rw [hwin, Dict.size, Dict.keys_insert_of_get?_eq_none _ hget, List.length_cons,
      length_cons]
    exact congrArg (· + 1) h.size
  · rw [store_newestWireSeq, Option.some.injEq] at hn
    subst hn
    cases hprev : d.newestWireSeq with
    | none => exact hmember
    | some prev =>
      have hmax : max prev (member first j) =
          if prev ≤ member first j then member first j else prev := rfl
      simp only [hmax]
      split_ifs
      · exact hmember
      · exact h.newest prev hprev
  · rw [store_pendingParities, h.pending]

/-- An envelope that recovers nothing yet is buffered. -/
theorem Holds.receiveParity (hk : k ≤ 255) (h : Holds k first sources d seen false)
    (hcap : 0 < d.windowCapacity) (hseen : seen.length + 2 ≤ k) :
    let r := d.receiveParity (groupEnvelope k first sources)
    r.2 = none ∧ Holds k first sources r.1 seen true ∧
      r.1.windowCapacity = d.windowCapacity := by
  dsimp only
  have hnone := h.lacks.tryRecover_eq_none hk hseen
  have hmiss : d.missingIn (groupEnvelope k first sources) ≠ [] := fun hnil => by
    have htwo := h.lacks.two_le_missing hk hseen
    simp [hnil] at htwo
  have hpend : d.pendingParities = [] := h.pending
  have hset : orderedSet d.pendingParities (groupEnvelope k first sources).groupFirstWireSeq
      (groupEnvelope k first sources) = [(first, groupEnvelope k first sources)] := by
    rw [hpend]
    rfl
  simp only [ParityDecoder.receiveParity, hnone, if_neg hmiss, hset]
  rw [prunePending_eq_self]
  · exact ⟨trivial, ⟨h.window, h.size, h.evicted, h.newest, rfl⟩, rfl⟩
  · -- no member of the group is numbered past the group's end
    intro newest hnewest e he
    obtain rfl := mem_singleton.1 he
    rw [groupEnvelope_k hk]
    exact (Nat.sub_le _ _).trans (h.newest newest hnewest)
  · exact hcap

include hlen in
/-- The buffered envelope recovers the missing source when the last of the others arrives. -/
theorem Holds.probe_eq_some (hk : k ≤ 255) (hsrc : ∀ s ∈ sources, TileSource s)
    (h : Holds k first sources d seen par) (hi : i < k) (hseen : ∀ j < k, j ∈ seen ↔ j ≠ i)
    (hj : j < k) (hpar : par = true) :
    d.probe (member first j) = some (first, sources.getD i []) := by
  have hpend : d.pendingParities = [(first, groupEnvelope k first sources)] := by
    rw [h.pending, if_pos hpar]
  rw [probe, hpend, findSome?_singleton]
  simp only [covers_groupEnvelope hk hj, if_true, h.tryRecover_eq_some hlen hk hsrc hi hseen,
    Option.map_some]

/-- What is still to arrive of the envelope and of the sources `todo`. -/
def outstanding (k : ℕ) (first : UInt32) (sources : List Bytes) (par : Bool) (todo : List ℕ) :
    List Arrival :=
  (if par then [] else [.parity (groupEnvelope k first sources)]) ++
    todo.map (sourceArrival first sources)

include hlen in
/-- **One source missing.** Whatever the order, the last arrival recovers it, and no other. -/
theorem recovered_eq_singleton (hk : k ≤ 255) (hsrc : ∀ s ∈ sources, TileSource s) (hi : i < k)
    (arrivals : List Arrival) (d : ParityDecoder) (seen todo : List ℕ) (par : Bool)
    (h : Holds k first sources d seen par) (hcap : k - 1 ≤ d.windowCapacity)
    (hall : (seen ++ todo).Perm ((List.range k).erase i))
    (harr : arrivals.Perm (outstanding k first sources par todo)) (hne : arrivals ≠ []) :
    recovered d arrivals = [sources.getD i []] := by
  induction arrivals generalizing d seen todo par with
  | nil => exact absurd rfl hne
  | cons a rest ih =>
    have hcount : seen.length + todo.length = k - 1 := by
      rw [← length_append, hall.length_eq, length_erase_of_mem (mem_range.2 hi),
        length_range]
    have hmem : ∀ j, j ∈ seen ++ todo ↔ j < k ∧ j ≠ i := fun j => by
      rw [hall.mem_iff, nodup_range.mem_erase_iff, mem_range, and_comm]
    have hnodup : (seen ++ todo).Nodup := hall.nodup_iff.2 (nodup_range.erase i)
    have ha : a ∈ outstanding k first sources par todo := harr.mem_iff.1 mem_cons_self
    unfold outstanding at ha harr
    rcases mem_append.1 ha with hpar | hsource
    · -- the envelope
      cases par with
      | true => simp at hpar
      | false =>
        obtain rfl := mem_singleton.1 hpar
        have hrest : rest.Perm (todo.map (sourceArrival first sources)) := harr.cons_inv
        rcases todo with _ | ⟨j, todo⟩
        · -- all the other sources are there
          have hseen : ∀ j < k, j ∈ seen ↔ j ≠ i := fun j hj => by
            simpa [hj] using hmem j
          have hnil : rest = [] := perm_nil.1 hrest
          simp [recovered, arrive, receiveParity,
            h.tryRecover_eq_some hlen hk hsrc hi hseen, hnil]
        · simp only [length_cons] at hcount
          obtain ⟨hout, hholds, hcapEq⟩ := h.receiveParity hk (by omega) (by omega)
          rw [recovered, arrive, hout]
          refine ih _ seen (j :: todo) true hholds (hcapEq ▸ hcap) hall ?_ ?_
          · simpa [outstanding] using hrest
          · rintro rfl
            simpa using hrest.length_eq
    · -- one of the sources
      obtain ⟨j, hj, rfl⟩ := mem_map.1 hsource
      have hjk : j < k := ((hmem j).1 (mem_append_right _ hj)).1
      have hnew : j ∉ seen := fun hs => (disjoint_of_nodup_append hnodup) hs hj
      have hpos : 0 < todo.length := length_pos_of_mem hj
      have hholds := h.store hlen hk hjk hnew (by omega)
      have htodo : todo.Perm (j :: todo.erase j) := perm_cons_erase hj
      have hall' : ((j :: seen) ++ todo.erase j).Perm ((range k).erase i) :=
        (perm_middle.symm.trans (htodo.symm.append_left seen)).trans hall
      have hrest : rest.Perm (outstanding k first sources par (todo.erase j)) := by
        refine List.Perm.cons_inv (harr.trans ?_)
        exact ((htodo.map _).append_left _).trans perm_middle
      rw [recovered, sourceArrival, arrive]
      by_cases hnil : rest = []
      · -- the last source: the buffered envelope recovers the missing one
        rw [hnil] at hrest
        obtain ⟨hpar, htodo'⟩ := append_eq_nil_iff.1 (nil_perm.1 hrest)
        have htrue : par = true := by
          by_contra hfalse
          simp [hfalse] at hpar
        have hseen : ∀ m < k, m ∈ j :: seen ↔ m ≠ i := fun m hm => by
          rw [map_eq_nil_iff.1 htodo', append_nil] at hall'
          rw [hall'.mem_iff, nodup_range.mem_erase_iff, mem_range]
          exact and_iff_left hm
        simp only [recordSource,
          hholds.probe_eq_some hlen hk hsrc hi hseen hjk htrue, hnil]
        rfl
      · have hnone : (d.store (member first j) (sources.getD j [])).probe (member first j) =
            none := by
          cases par with
          | false =>
            have hpend := hholds.pending
            simp only [Bool.false_eq_true, if_false] at hpend
            rw [probe, hpend]
            rfl
          | true =>
            refine hholds.lacks.probe_eq_none hk ?_ _
            have hpos' : 0 < rest.length := length_pos_iff.2 hnil
            rw [hrest.length_eq] at hpos'
            simp only [outstanding, if_true, nil_append, length_map,
              length_erase_of_mem hj] at hpos'
            simp only [length_cons]
            omega
        rw [d.recordSource_of_probe_eq_none hnone]
        exact ih _ (j :: seen) (todo.erase j) par hholds
          (by rw [store_windowCapacity]; exact hcap) hall' hrest hnil

end Group

theorem holds_new (k : ℕ) (first : UInt32) (sources : List Bytes) (capacity : ℕ) :
    Holds k first sources (.new capacity) [] false :=
  ⟨fun _ _ => rfl, rfl, rfl, fun _ hn => (by cases hn), rfl⟩

theorem decode_groupEnvelope {k : ℕ} (first : UInt32) {sources : List Bytes} (hk : k ≤ 255)
    (hlen : sources.length = k) :
    TileParityEnvelope.decode (groupEnvelope k first sources).encode =
      .ok (groupEnvelope k first sources) := by
  refine TileParityEnvelope.decode_encode _ ?_
  rw [groupEnvelope_k hk]
  show (sources.map fun s => UInt16.ofNat s.length).length = k
  rw [length_map, hlen]

/-- **Parity recovery is exact.** `k` consecutive tile datagrams, with `k` from 1 to 255, make one
group, whose envelope survives the wire. Given all the sources but `i` and the envelope, in any
order, a fresh decoder with room for `k - 1` sources recovers source `i`, once and nothing else;
given the envelope and at most `k - 2` of the sources, no decoder recovers anything. -/
theorem fec_recovery_exact (k : ℕ) (first : UInt32) (sources : List Bytes) (hpos : 1 ≤ k)
    (hk : k ≤ 255) (hlen : sources.length = k) (hsrc : ∀ s ∈ sources, TileSource s) :
    ∃ r env, (GroupBuilder.feed (.new k) first sources).2 = [r] ∧
      TileParityEnvelope.decode r.envelope.encode = .ok env ∧
      (∀ capacity, k - 1 ≤ capacity → ∀ i < k, ∀ arrivals : List Arrival,
        arrivals.Perm (.parity env :: ((List.range k).erase i).map (sourceArrival first sources)) →
          recovered (.new capacity) arrivals = [sources.getD i []]) ∧
      (∀ capacity (present : List ℕ), present.Nodup → (∀ j ∈ present, j < k) →
        present.length + 2 ≤ k → ∀ arrivals : List Arrival,
        arrivals.Perm (.parity env :: present.map (sourceArrival first sources)) →
          recovered (.new capacity) arrivals = []) := by
  refine ⟨fullGroup k first sources, groupEnvelope k first sources, ?_,
    decode_groupEnvelope first hk hlen, fun capacity hcap i hi arrivals harr => ?_,
    fun capacity present _ hlt hfew arrivals harr => ?_⟩
  · rw [feed_eq first sources hpos hlen]
  · refine recovered_eq_singleton hlen hk hsrc hi arrivals _ [] ((range k).erase i) false
      (holds_new k first sources capacity) hcap (List.Perm.refl _) harr ?_
    rintro rfl
    simpa using harr.length_eq
  · refine recovered_eq_nil hk arrivals _ [] (holds_new k first sources capacity).lacks
      (fun a ha => ?_) ?_
    · rcases mem_cons.1 (harr.mem_iff.1 ha) with rfl | hmem
      · exact .inl rfl
      · obtain ⟨j, hj, rfl⟩ := mem_map.1 hmem
        exact .inr ⟨j, hlt j hj, rfl⟩
    · have hle : (present.map (sourceArrival first sources)).countP
          (fun a => a matches .source _ _) ≤ present.length := by
        rw [← length_map (sourceArrival first sources)]
        exact countP_le_length
      rw [harr.countP_eq, countP_cons_of_neg (by simp), length_nil]
      omega

/-- Three sources of different lengths, numbered across the wrap. -/
def sampleSources : List Bytes :=
  [128 :: List.replicate 11 1, 129 :: List.replicate 13 2, 130 :: List.replicate 12 3]

theorem tileSource_sample : ∀ s ∈ sampleSources, TileSource s := by
  intro s hs
  simp only [sampleSources, mem_cons, not_mem_nil, or_false] at hs
  rcases hs with rfl | rfl | rfl <;> exact ⟨by decide, by decide, by decide⟩

theorem fec_recovery_exact_wrapping :
    ∃ r env, (GroupBuilder.feed (.new 3) 0xFFFFFFFE sampleSources).2 = [r] ∧
      TileParityEnvelope.decode r.envelope.encode = .ok env ∧
      recovered (.new parityWindow)
        [sourceArrival 0xFFFFFFFE sampleSources 2, .parity env,
          sourceArrival 0xFFFFFFFE sampleSources 0] = [129 :: List.replicate 13 2] ∧
      recovered (.new parityWindow)
        [.parity env, sourceArrival 0xFFFFFFFE sampleSources 1] = [] := by
  obtain ⟨r, env, hfeed, hdec, hone, htwo⟩ :=
    fec_recovery_exact 3 0xFFFFFFFE sampleSources (by decide) (by decide) rfl tileSource_sample
  refine ⟨r, env, hfeed, hdec, ?_, ?_⟩
  · refine hone parityWindow (by decide) 1 (by decide) _ ?_
    exact List.Perm.trans (.swap _ _ _) (.cons _ (.swap _ _ _))
  · exact htwo parityWindow [1] (by decide) (by decide) (by decide) _ (.refl _)

/-- A group of 42 does not fit the client's window but for one: with source 0 missing and all the
others received, the envelope recovers nothing. -/
theorem recovered_large_group_eq_nil :
    ∃ r env, (GroupBuilder.feed (.new 42) 0 (List.replicate 42 (List.replicate 12 128))).2 = [r] ∧
      TileParityEnvelope.decode r.envelope.encode = .ok env ∧
      recovered (.new parityWindow)
        (((List.range 42).erase 0).map
            (sourceArrival 0 (List.replicate 42 (List.replicate 12 128))) ++ [.parity env]) =
                [] := by
  refine ⟨fullGroup 42 0 (replicate 42 (replicate 12 128)),
    groupEnvelope 42 0 (replicate 42 (replicate 12 128)), ?_,
    decode_groupEnvelope 0 (by decide) rfl, by decide +kernel⟩
  exact congrArg Prod.snd (feed_eq 0 _ (by decide) (length_replicate ..))

/-! ### Nothing received is rebuilt -/

/-- A source with this number is among the arrivals. -/
def Received (arrivals : List Arrival) (ws : UInt32) : Prop := ∃ bytes, .source ws bytes ∈ arrivals

section Recalls

/-- The numbers of `P` are in the window, which `order` lists, or no newer than one it evicted. -/
structure Recalls (P : UInt32 → Prop) (order keys : List UInt32) (evicted : Option UInt32) :
    Prop where
  listed : order.Perm keys
  known : ∀ ws, P ws → ws ∈ order ∨ ∃ m ∈ evicted, ws.toNat ≤ m.toNat
  sound : ∀ ws, ws ∈ order ∨ ws ∈ evicted → P ws

variable {P : UInt32 → Prop}

/-- The oldest number leaves, and `n` is the newest evicted. -/
theorem Recalls.evict {oldest n : UInt32} {rest keys : List UInt32} {evicted : Option UInt32}
    (h : Recalls P (oldest :: rest) keys evicted) (hn : P n) (hold : oldest.toNat ≤ n.toNat)
    (hnew : ∀ m ∈ evicted, m.toNat ≤ n.toNat) :
    Recalls P rest (keys.erase oldest) (some n) where
  listed := by simpa using h.listed.erase oldest
  known ws hws := by
    rcases h.known ws hws with hmem | ⟨m, hm, hle⟩
    · rcases mem_cons.1 hmem with rfl | hmem
      · exact .inr ⟨n, rfl, hold⟩
      · exact .inl hmem
    · exact .inr ⟨n, rfl, hle.trans (hnew m hm)⟩
  sound ws hws := by
    rcases hws with hmem | hmem
    · exact h.sound ws (.inl (mem_cons_of_mem _ hmem))
    · exact Option.some.inj hmem ▸ hn

variable (hnear : ∀ ws, P ws → ws.toNat < 2 ^ 31)
include hnear

theorem seqAtOrBefore_iff {a m : UInt32} (ha : P a) (hm : P m) :
    seqAtOrBefore a m = true ↔ a.toNat ≤ m.toNat := by
  have := hnear a ha
  have := hnear m hm
  simp only [seqAtOrBefore, Bool.or_eq_true, decide_eq_true_eq, ← UInt32.toNat_inj,
    UInt32.toNat_sub, UInt32.toNat_zero]
  omega

/-- The eviction loop forgets no number altogether. -/
theorem Recalls.evictWindow (order : List UInt32) (d : ParityDecoder)
    (h : Recalls P order d.window.keys d.maxEvicted) :
    let d' := ParityDecoder.evictWindow order d
    Recalls P d'.order d'.window.keys d'.maxEvicted := by
  dsimp only
  fun_induction ParityDecoder.evictWindow order d with
  | case1 | case3 => exact h
  | case2 oldest rest d _ ih =>
    have hold := h.sound oldest (.inl mem_cons_self)
    apply ih
    rw [keys_erase]
    split
    · rename_i m hm
      have hmP := h.sound m (.inr hm)
      have hle := seqAtOrBefore_iff hnear hold hmP
      split_ifs with hb
      · exact h.evict hmP (hle.1 hb) (by simp [hm])
      · rw [hle, not_le] at hb
        exact h.evict hold le_rfl (by simp [hm, hb.le])
    · rename_i hnone
      exact h.evict hold le_rfl (by simp [hnone])

variable {d : ParityDecoder}

/-- A source joins the numbers received. -/
theorem Recalls.store {Q : UInt32 → Prop}
    (h : Recalls Q d.order d.window.keys d.maxEvicted) (ws : UInt32)
    (hP : ∀ w, P w ↔ Q w ∨ w = ws) (bytes : Bytes) :
    let d' := d.store ws bytes
    Recalls P d'.order d'.window.keys d'.maxEvicted := by
  unfold ParityDecoder.store
  dsimp only
  split_ifs with hc
  · refine ⟨h.listed, fun w hw => ?_, fun w hw => (hP w).2 (.inl (h.sound w hw))⟩
    rcases (hP w).1 hw with hw | rfl
    · exact h.known w hw
    · exact .inl (h.listed.mem_iff.2 ((mem_keys_iff _ _).2 (by simpa using hc)))
  · have hnone : d.window.get? ws = none := by
      simpa [Option.eq_none_iff_forall_ne_some] using hc
    refine Recalls.evictWindow hnear _ _ ⟨?_, fun w hw => ?_, fun w hw => (hP w).2 ?_⟩
    · rw [keys_insert_of_get?_eq_none _ hnone]
      exact (perm_append_singleton ws _).trans (h.listed.cons ws)
    · rcases (hP w).1 hw with hw | rfl
      · exact (h.known w hw).imp_left (mem_append_left _)
      · exact .inl (by simp)
    · rw [mem_append, mem_singleton] at hw
      have := h.sound w
      tauto

theorem Recalls.arrive {Q : UInt32 → Prop}
    (h : Recalls Q d.order d.window.keys d.maxEvicted) (a : Arrival)
    (hP : ∀ w, P w ↔ Q w ∨ ∃ bytes, a = .source w bytes) :
    let d' := (arrive d a).1
    Recalls P d'.order d'.window.keys d'.maxEvicted := by
  cases a with
  | source ws b =>
    have hstore := h.store hnear ws (fun w => by simpa [eq_comm] using hP w) b
    simp only [Fec.arrive, recordSource]
    split <;> exact hstore
  | parity env =>
    obtain rfl : P = Q := funext fun w => propext (by simpa using hP w)
    simp only [Fec.arrive, receiveParity]
    split
    · exact h
    · split_ifs <;> exact h

/-- Of a group that can be completed one source never arrived, and the others did. -/
theorem Recalls.missing (h : Recalls P d.order d.window.keys d.maxEvicted)
    {env : TileParityEnvelope} {bytes : Bytes} (hrec : d.tryRecover env = some bytes) :
    ∃ ws, d.missingIn env = [ws] ∧ ¬P ws ∧ ∀ w ∈ members env, w ≠ ws → P w := by
  unfold tryRecover at hrec
  split at hrec
  · rename_i ws hmiss
    refine ⟨ws, hmiss, fun hP => ?_, fun w hw hne => ?_⟩
    rotate_left
    · have hin : w ∉ d.missingIn env := by simpa [hmiss] using hne
      refine h.sound w (.inl (h.listed.mem_iff.2 ((mem_keys_iff _ _).2 ?_)))
      exact (contains_eq_true_iff _ _).1 (by simpa [missingIn, hw] using hin)
    have hgone : ws ∈ d.missingIn env := hmiss ▸ mem_singleton_self ws
    split_ifs at hrec with hev
    rcases h.known ws hP with hmem | ⟨m, hm, hle⟩
    · have hin : d.window.contains ws = true :=
        (contains_eq_true_iff _ _).2 ((mem_keys_iff _ _).1 (h.listed.mem_iff.1 hmem))
      simp [missingIn, hin] at hgone
    · rw [show d.maxEvicted = some m from hm] at hev
      exact hev ((seqAtOrBefore_iff hnear hP (h.sound m (.inr hm))).2 hle)
  · cases hrec

end Recalls

end Ghostframe.Fec
