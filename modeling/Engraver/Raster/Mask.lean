import Engraver.Number.Layout

/-!
# Masks

A mask is a grid of intensities. Row 0 lies at the near edge of the bed and column 0 at the left.
A raster is a mask with a resolution, and off the mask the intensity is zero.
-/

namespace Engraver

/-- Why a mask or a raster cannot be made. -/
inductive RasterFault where
  /-- The picture could not be read. -/
  | unreadable
  | empty
  | ragged
  | badResolution (dpmm : Float)

def RasterFault.message : RasterFault → String
  | unreadable => "Image error: the picture cannot be read"
  | empty => "Raster mask must have at least one pixel"
  | ragged => "Raster rows must all have the same width"
  | badResolution dpmm =>
    "Raster resolution must be a positive number of dots per mm, got " ++ Double.toText dpmm

/-- A grid of intensities, stored row after row. -/
structure Mask where
  width : Nat
  height : Nat
  pixels : Array UInt8
deriving Repr, DecidableEq

namespace Mask

def uniform (intensity : UInt8) : Mask :=
  ⟨1, 1, #[intensity]⟩

/-- The mask with the given rows: at least one pixel, and all rows of one width. -/
def ofRows (rows : List (List UInt8)) : Except RasterFault Mask :=
  let width := (rows.head?.getD []).length
  if width = 0 then .error .empty
  else if rows.any (·.length != width) then .error .ragged
  else .ok ⟨width, rows.length, rows.flatten.toArray⟩

/-- The intensity of a pixel; none outside the grid. -/
def get? (m : Mask) (col row : Nat) : Option UInt8 :=
  if col < m.width ∧ row < m.height then m.pixels[row * m.width + col]? else none

end Mask

/-- A mask with its dots per millimetre. -/
structure Raster where
  mask : Mask
  dpmm : Float

namespace Raster

/-- One bright pixel that covers the whole bed. -/
def wholeBed : Raster := ⟨.uniform 255, 0.00001⟩

/-- A raster; the resolution must be a positive finite number. -/
def make (mask : Mask) (dpmm : Float) : Except RasterFault Raster :=
  if !dpmm.isFinite || dpmm ≤ 0 then .error (.badResolution dpmm) else .ok ⟨mask, dpmm⟩

/-- The intensity under a place on the bed; 0 off the mask and for places that are no numbers. -/
def sample (r : Raster) (x y : Float) : UInt8 :=
  let col := x * r.dpmm
  let row := y * r.dpmm
  if 0 ≤ col ∧ 0 ≤ row then (r.mask.get? col.toUInt64.toNat row.toUInt64.toNat).getD 0 else 0

end Raster

end Engraver
