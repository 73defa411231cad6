import Engraver.Raster.Mask

/-!
# Pictures

A picture is read from the top; a mask counts its rows from the near edge of the bed. Colours are
reduced to their brightness, transparency is passed over, and deep channels are reduced to a byte.
-/

namespace Engraver

/-- A pixel; deep channels reach up to 65535, the others to 255. -/
inductive Pixel where
  | gray (v : Nat)
  | deepGray (v : Nat)
  | color (r g b : Nat)
  | deepColor (r g b : Nat)
deriving Repr, DecidableEq

namespace Pixel

/-- The pixel of channels that reach up to 255, or up to 65535 when they are deep: a gray and perhaps an
opacity, or red, green and blue and perhaps an opacity. -/
def ofChannels (deep : Bool) : List Nat → Pixel
  | r :: g :: b :: _ => if deep then .deepColor r g b else .color r g b
  | v :: _ => if deep then .deepGray v else .gray v
  | [] => .gray 0

/-- The brightness, from 0 to 255, of a colour whose channels reach up to `full`. Red, green and blue
count by their parts in white daylight, and everything is worked out in single precision. -/
def brightness (full r g b : Nat) : Nat :=
  let unit := 1 / Float32.ofNat full
  let part (weight : Float32) (v : Nat) := weight * (Float32.ofNat v * unit)
  let sum := part 0.21264784 r + part 0.715179205 g + part 0.0721730366 b
  Double.roundToCount (sum * 255).toFloat

/-- A deep channel reduced to a byte. -/
def shallow (v : Nat) : Nat :=
  (v + 128) / 257

def intensity : Pixel → UInt8
  | gray v => .ofNat v
  | deepGray v => .ofNat (shallow v)
  | color r g b => .ofNat (brightness 255 r g b)
  | deepColor r g b => .ofNat (brightness 65535 r g b)

end Pixel

/-- A picture, row by row from the top. -/
structure Picture where
  rows : List (List Pixel)
deriving Repr, DecidableEq

namespace Picture

/-- Items in rows of `width`; an unfinished row is left out. -/
def chunk {α : Type} (width : Nat) : (height : Nat) → List α → List (List α)
  | 0, _ => []
  | height + 1, items => items.take width :: chunk width height (items.drop width)

def ofPixels (width height : Nat) (pixels : List Pixel) : Picture :=
  if width = 0 then ⟨[]⟩ else ⟨chunk width height pixels⟩

def negative (v : UInt8) : UInt8 :=
  255 - v

/-- The mask of a picture: its bottom row lies at the near edge of the bed. When inverted, dark pixels
burn. -/
def toMask (p : Picture) (invert : Bool) : Except RasterFault Mask :=
  Mask.ofRows (p.rows.reverse.map fun row =>
    row.map fun pixel => if invert then negative pixel.intensity else pixel.intensity)

end Picture

end Engraver
