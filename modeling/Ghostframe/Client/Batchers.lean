import Ghostframe.Client.Event
import Ghostframe.Lib.Dict

/-!
# Batched acknowledgements and rate-limited decode errors

Both are asked by the core when something is to be reported, and return a message
when it is to be sent now. Times are microseconds, natural numbers.
-/

namespace Ghostframe.Client

open Protocol

/-! ### Acknowledgements -/

def ackBatchMsgType : UInt8 := 0x06
def maxFreshEntriesPerBatch : ℕ := 64
def ackOverlapCount : ℕ := 8
def flushIntervalUs : ℕ := 5000

/-- `MAX_RECENT`. -/
def maxRecent : ℕ := ackOverlapCount * 4

/-- One acknowledged transmission. -/
structure AckEntry where
  wireSeq : UInt32
  arrivalTimeMsLo16 : UInt16
  deriving DecidableEq

/-- `AckBatch::encode`. -/
def encodeAckBatch (entries : List AckEntry) : Bytes :=
  [ackBatchMsgType, .ofNat entries.length] ++
    (entries.map fun e => le32 e.wireSeq ++ le16 e.arrivalTimeMsLo16).flatten

/-- The entries waiting, and recent ones to repeat. -/
structure AckBatcher where
  entries : List AckEntry := []
  recent : List AckEntry := []
  deadlineUs : Option ℕ := none
  deriving DecidableEq

namespace AckBatcher

/-- `flush`: the waiting entries, with the last few sent before them as overlap. -/
def flush (b : AckBatcher) : AckBatcher × Option Bytes :=
  if b.entries = [] then ({ b with deadlineUs := none }, none)
  else
    let overlap := b.recent.drop (b.recent.length - ackOverlapCount)
    let recent := b.recent ++ b.entries
    ({ entries := [], recent := recent.drop (recent.length - maxRecent), deadlineUs := none },
      some (encodeAckBatch (b.entries ++ overlap)))

/-- `add`. -/
def add (b : AckBatcher) (entry : AckEntry) (nowUs : ℕ) : AckBatcher × Option Bytes :=
  let b := { b with entries := b.entries ++ [entry] }
  if maxFreshEntriesPerBatch ≤ b.entries.length then b.flush
  else ({ b with deadlineUs := some (b.deadlineUs.getD (nowUs + flushIntervalUs)) }, none)

end AckBatcher

/-! ### Decode errors -/

def decodeErrorMsgType : UInt8 := 0x04
def windowUs : ℕ := 1000000
def globalCap : ℕ := 32

/-- When each tile last reported, and the recent reports. -/
structure DecodeErrorBatcher where
  perKey : Dict (UInt8 × UInt8 × UInt8) ℕ := Dict.empty
  recentEmits : List ℕ := []

namespace DecodeErrorBatcher

/-- `report`: at most one message per tile and `GLOBAL_CAP` in all within the window. -/
def report (b : DecodeErrorBatcher) (codec : Protocol.Codec) (tileX tileY : UInt8)
    (code : DecodeErrorCode) (nowUs : ℕ) : DecodeErrorBatcher × Option Bytes :=
  let b :=
    { b with
      recentEmits := b.recentEmits.dropWhile fun t =>
        decide (windowUs ≤ nowUs) && decide (t ≤ nowUs - windowUs) }
  let key := (codec.toU8, tileX, tileY)
  if globalCap ≤ b.recentEmits.length then (b, none)
  else if (b.perKey.get? key).any fun last =>
      decide (last ≤ nowUs) && decide (nowUs - last < windowUs) then (b, none)
  else
    ({ perKey := b.perKey.insert key nowUs, recentEmits := b.recentEmits ++ [nowUs] },
      some [decodeErrorMsgType, codec.toU8, tileX, tileY, code.toU8])

end DecodeErrorBatcher

end Ghostframe.Client
