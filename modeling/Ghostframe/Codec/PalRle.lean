import Ghostframe.Lib.Bytes

/-!
# Palettes

A tile of at most 16 colours is sent as 4-bit indices into a palette. The server
keeps its palettes in slots the client mirrors.

* `PaletteTable`: the users of each slot, and whether the client is believed to
  have it (`delivered`);
* `nibbleAt`: the index of one pixel.
-/

namespace Ghostframe.Codec

/-- One pixel or palette colour. -/
structure Bgra where
  b : UInt8 := 0
  g : UInt8 := 0
  r : UInt8 := 0
  a : UInt8 := 0
  deriving DecidableEq, Inhabited

/-- A slot's lifecycle. -/
inductive SlotState
  | empty
  | held
  | freeButCached
  deriving DecidableEq

/-- The slots and their users. -/
structure PaletteTable where
  slotState : UInt8 → SlotState := fun _ => .empty
  refCount : UInt8 → ℕ := fun _ => 0
  delivered : UInt8 → Bool := fun _ => false
  inFlightCarrying : UInt8 → ℕ := fun _ => 0
  freeLru : List UInt8 := []

namespace PaletteTable

/-- `PaletteTable::new`. -/
def new : PaletteTable := {}

/-- `release`. -/
def release (t : PaletteTable) (id : UInt8) : PaletteTable :=
  let t := { t with refCount := Function.update t.refCount id (t.refCount id - 1) }
  if t.refCount id = 0 then
    { t with
      slotState := Function.update t.slotState id .freeButCached
      freeLru := t.freeLru ++ [id] }
  else t

end PaletteTable

/-- The index of one pixel, low nibble first. -/
def nibbleAt (packed : Bytes) (pixel : ℕ) : UInt8 :=
  let b := packed.getD (pixel / 2) 0
  if pixel % 2 = 0 then b &&& 0x0F else b >>> 4

end Ghostframe.Codec
