import Engraver.Raster.Netpbm

/-!
# Portable arbitrary maps

The header of such a picture is a row of named lines, and each pixel is a row of as many samples as
the header says. What the samples mean is told by a tuple type, or without one by their number.
-/

namespace Engraver.Pam

/-- The header, as far as it has been read. -/
structure Header where
  /-- The numbers of the lines with one number. -/
  numbers : List (String × Nat) := []
  /-- The tuple type. -/
  kind : Option (List Char) := none

/-! ## The header -/

def trim (cs : List Char) : List Char :=
  ((cs.dropWhile Netpbm.isSeparator).reverse.dropWhile Netpbm.isSeparator).reverse

/-- One more line. A number is given once; the parts of a tuple type are joined by spaces. -/
def Header.add? (h : Header) (name : String) (rest : List Char) : Option Header :=
  if ["WIDTH", "HEIGHT", "DEPTH", "MAXVAL"].contains name then
    if (h.numbers.lookup name).isSome then none
    else (Netpbm.count? 0xffffffff rest).map fun n => { h with numbers := (name, n) :: h.numbers }
  else if name = "TUPLTYPE" then
    some { h with kind := some (match h.kind with | some kind => kind ++ ' ' :: rest | none => rest) }
  else none

/-- The header and what follows it, if it has no more than a number of lines. Lines that begin with
`#` are comments. -/
def readHeader? (h : Header) : (lines : Nat) → List Char → Option (Header × List Char)
  | 0, _ | _, [] => none
  | lines + 1, cs =>
    let (line, rest) := cs.span (· != '\n')
    if line.head? = some '#' then readHeader? h lines (rest.drop 1)
    else if line.any fun c => 0x80 ≤ c.toNat then none
    else
      let (name, value) := line.span fun c => !Netpbm.isSeparator c
      if name = ['E', 'N', 'D', 'H', 'D', 'R'] then some (h, rest.drop 1)
      else (h.add? (.ofList name) (trim value)).bind fun h => readHeader? h lines (rest.drop 1)

/-! ## The picture -/

/-- What the samples of a pixel are: how many, how far they may reach, and whether they take two bytes
as soon as they reach past 255. -/
structure Tuple where
  depth : Nat
  limit : Nat
  widens : Bool
deriving Repr, DecidableEq

/-- The tuple of a type. -/
def tuple? (kind : String) : Option Tuple :=
  match kind with
  | "BLACKANDWHITE" => some ⟨1, 1, true⟩
  | "BLACKANDWHITE_ALPHA" => some ⟨2, 1, true⟩
  | "GRAYSCALE" => some ⟨1, 65535, true⟩
  | "GRAYSCALE_ALPHA" => some ⟨2, 65535, true⟩
  | "RGB" => some ⟨3, 65535, true⟩
  | "RGB_ALPHA" => some ⟨4, 65535, true⟩
  | _ => none

/-- The tuple of some samples without a type: they take one byte each. -/
def untyped? (depth : Nat) : Option Tuple :=
  if 1 ≤ depth ∧ depth ≤ 4 then some ⟨depth, 0xffffffff, false⟩ else none

def picture? (h : Header) (bytes : List Nat) : Option Picture := do
  let width ← h.numbers.lookup "WIDTH"
  let height ← h.numbers.lookup "HEIGHT"
  let depth ← h.numbers.lookup "DEPTH"
  let white ← h.numbers.lookup "MAXVAL"
  let tuple ← match h.kind with
    | some kind => tuple? (.ofList kind)
    | none => untyped? depth
  let deep := tuple.widens && 255 < white
  let samples ← Netpbm.packedSamples? deep (width * height * depth) bytes
  if tuple.depth ≠ depth ∨ white = 0 ∨ tuple.limit < white then none
  else if tuple.limit = 1 && samples.any (1 < ·) then none
  else
    let full := if deep then 65535 else 255
    return .ofPixels width height (Netpbm.pixels deep depth (samples.map (Netpbm.spread white full)))

def readChars? : List Char → Option Picture
  | 'P' :: '7' :: '\n' :: cs => do
    let (header, rest) ← readHeader? {} cs.length cs
    picture? header (rest.map Char.toNat)
  | _ => none

end Engraver.Pam
