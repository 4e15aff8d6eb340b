import Ghostframe.Lib.Xor
import Ghostframe.Protocol.Wire
import Ghostframe.Transport.Content

/-!
# Parity groups on the server

`GroupBuilder` collects source datagrams with consecutive `wire_seq`s and turns
every full group into its parity.

* `add`: a source that does not follow the last one abandons the partial group;
* `GroupResult.envelope`: the parity datagram of a full group;
* `feed`: sources numbered consecutively from a first `wire_seq`;
* `feed_eq`: a full group of consecutive sources yields exactly its parity.
-/

namespace Ghostframe.Transport

open Protocol List UInt32

/-- A full group: what its parity envelope needs. -/
structure GroupResult where
  groupFirstWireSeq : WireSeq
  k : UInt8
  sourceLens : List UInt16
  parity : Bytes
  deriving DecidableEq

/-- The group being collected. -/
structure GroupBuilder where
  targetK : ℕ
  firstWireSeq : Option WireSeq := none
  lastWireSeq : Option WireSeq := none
  sourceLens : List UInt16 := []
  sources : List Bytes := []
  deriving DecidableEq

/-- The envelope scheduled for a full group; there is one parity per group. -/
def GroupResult.envelope (r : GroupResult) : TileParityEnvelope where
  groupFirstWireSeq := r.groupFirstWireSeq
  k := r.k
  parityIdx := 0
  sourceLens := r.sourceLens
  parityPayload := r.parity

namespace GroupBuilder

/-- `GroupBuilder::new`. -/
def new (k : ℕ) : GroupBuilder := { targetK := k }

variable (g : GroupBuilder)

/-- `GroupBuilder::reset`. -/
def reset : GroupBuilder := { targetK := g.targetK }

/-- A gap in the numbers abandons the partial group. -/
def resetOnGap (ws : WireSeq) : GroupBuilder :=
  match g.lastWireSeq with
  | some last => if ws ≠ last + 1 then g.reset else g
  | none => g

/-- The source joins the group. -/
def push (ws : WireSeq) (source : Bytes) : GroupBuilder :=
  { g with
    firstWireSeq := some (g.firstWireSeq.getD ws)
    lastWireSeq := some ws
    sourceLens := g.sourceLens ++ [.ofNat source.length]
    sources := g.sources ++ [source] }

/-- `GroupBuilder::add`. -/
def add (ws : WireSeq) (source : Bytes) : GroupBuilder × Option GroupResult :=
  let g1 := (g.resetOnGap ws).push ws source
  if g1.sources.length < g1.targetK then (g1, none)
  else
    (g1.reset,
      some
        { groupFirstWireSeq := g1.firstWireSeq.getD ws
          k := .ofNat g1.targetK
          sourceLens := g1.sourceLens
          parity := xorPayloads g1.sources })

/-- Feed sources numbered consecutively from `ws`, collecting the full groups. -/
def feed : GroupBuilder → WireSeq → List Bytes → GroupBuilder × List GroupResult
  | g, _, [] => (g, [])
  | g, ws, s :: rest =>
    let added := g.add ws s
    let fed := feed added.1 (ws + 1) rest
    (fed.1, added.2.toList ++ fed.2)

/-- The builder in the middle of a group that began at `first`. -/
def partway (k : ℕ) (first : WireSeq) (sources : List Bytes) : GroupBuilder where
  targetK := k
  firstWireSeq := some first
  lastWireSeq := some (first + .ofNat sources.length - 1)
  sourceLens := sources.map fun s => .ofNat s.length
  sources := sources

/-- The result of a full group. -/
def fullGroup (k : ℕ) (first : WireSeq) (sources : List Bytes) : GroupResult where
  groupFirstWireSeq := first
  k := .ofNat k
  sourceLens := sources.map fun s => .ofNat s.length
  parity := xorPayloads sources

variable {k : ℕ}

theorem add_partway {first : WireSeq} {sources : List Bytes} (s : Bytes) :
    (partway k first sources).add (first + .ofNat sources.length) s =
      if sources.length + 1 < k then (partway k first (sources ++ [s]), none)
      else (new k, some (fullGroup k first (sources ++ [s]))) := by
  have hnext : first + ofNat sources.length - 1 + 1 = first + ofNat sources.length := by
    rw [sub_add_cancel]
  have hgap : (partway k first sources).resetOnGap (first + .ofNat sources.length) =
      partway k first sources := by
    simp [resetOnGap, partway, hnext]
  have hlast : first + (ofNat sources.length + 1) - 1 = first + ofNat sources.length := by
    rw [← UInt32.add_assoc, UInt32.add_sub_cancel]
  rw [add, hgap]
  simp only [push, partway, length_append, length_singleton]
  split_ifs
  · simp [hlast]
  · simp [fullGroup, reset, new]

theorem add_new (first : WireSeq) (s : Bytes) :
    (new k).add first s =
      if 1 < k then (partway k first [s], none)
      else (new k, some (fullGroup k first [s])) := by
  rw [add]
  simp only [resetOnGap, new, push, nil_append, length_singleton, Option.getD_none,
    Option.getD_some]
  split_ifs with hk
  · simp [partway, hk]
  · simp [fullGroup, reset, hk]

/-- A source that does not follow the last one starts a group of its own. -/
theorem add_partway_gap {first ws : WireSeq} {sources : List Bytes} (s : Bytes)
    (hgap : ws ≠ first + .ofNat sources.length) :
    (partway k first sources).add ws s = (new k).add ws s := by
  have hreset : (partway k first sources).resetOnGap ws = new k := by
    simp [resetOnGap, partway, reset, new, hgap]
  rw [add, hreset, add]
  rfl

theorem feed_partway {first : WireSeq} (rest sources : List Bytes)
    (hlen : sources.length + rest.length = k) (hrest : rest ≠ []) :
    feed (partway k first sources) (first + .ofNat sources.length) rest =
      (new k, [fullGroup k first (sources ++ rest)]) := by
  induction rest generalizing sources with
  | nil => exact absurd rfl hrest
  | cons s rest ih =>
    rw [feed, add_partway]
    cases rest with
    | nil =>
      rw [if_neg (by simp at hlen; omega)]
      simp [feed]
    | cons s' rest =>
      rw [if_pos (by simp at hlen; omega)]
      have hnext : first + ofNat sources.length + 1 =
          first + ofNat (sources ++ [s]).length := by
        rw [length_append, length_singleton, ofNat_add, ← add_assoc]
        rfl
      simp only [hnext, Option.toList_none, nil_append]
      rw [ih (sources ++ [s]) (by simpa [Nat.add_assoc, Nat.add_comm 1] using hlen) (by simp)]
      simp

/-- A full group of consecutive sources yields exactly its parity, at its last source. -/
theorem feed_eq (first : WireSeq) (sources : List Bytes) (hk : 0 < k)
    (hlen : sources.length = k) :
    feed (new k) first sources = (new k, [fullGroup k first sources]) := by
  cases sources with
  | nil => simp at hlen; omega
  | cons s rest =>
    rw [feed, add_new]
    cases rest with
    | nil =>
      rw [if_neg (by simp at hlen; omega)]
      simp [feed]
    | cons s' rest =>
      rw [if_pos (by simp at hlen; omega)]
      have hstart : feed (partway k first [s]) (first + .ofNat [s].length) (s' :: rest) = _ :=
        feed_partway (s' :: rest) [s] (by simpa [Nat.add_comm] using hlen) (by simp)
      simpa using hstart

end GroupBuilder

end Ghostframe.Transport
