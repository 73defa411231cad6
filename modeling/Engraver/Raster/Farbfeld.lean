import Engraver.Raster.Netpbm

/-!
# Farbfeld pictures

A name, the width and the height in four bytes each, and then red, green, blue and opacity in two
bytes each for every pixel; the high byte comes first.
-/

namespace Engraver.Farbfeld

/-- The number that bytes stand for, the high byte first. -/
def value (bytes : List Nat) : Nat :=
  bytes.foldl (fun n b => 256 * n + b) 0

def readChars? (cs : List Char) : Option Picture :=
  let (name, cs) := cs.splitAt 8
  let (width, cs) := cs.splitAt 4
  let (height, cs) := cs.splitAt 4
  if String.ofList name = "farbfeld" ∧ height.length = 4 then
    let width := value (width.map Char.toNat)
    let height := value (height.map Char.toNat)
    (Netpbm.packedSamples? true (4 * width * height) (cs.map Char.toNat)).map fun samples =>
      .ofPixels width height (Netpbm.pixels true 4 samples)
  else none

end Engraver.Farbfeld
