import Engraver.Number.Numeral
import Engraver.Raster.Picture

/-!
# Portable pictures

Portable bitmaps, graymaps and pixmaps, each in plain text or in bytes. A header gives the width, the
height and, except for bitmaps, the value of white.
-/

namespace Engraver.Netpbm

/-- The six formats: `P1` to `P3` in plain text, `P4` to `P6` in bytes. -/
structure Format where
  plain : Bool
  /-- Channels of a pixel; none for bitmaps. -/
  channels : Option Nat
deriving Repr, DecidableEq

/-- The format of a digit. -/
def format? (digit : Char) : Option Format :=
  match digit with
  | '1' => some ⟨true, none⟩
  | '2' => some ⟨true, some 1⟩
  | '3' => some ⟨true, some 3⟩
  | '4' => some ⟨false, none⟩
  | '5' => some ⟨false, some 1⟩
  | '6' => some ⟨false, some 3⟩
  | _ => none

/-! ## The header -/

def isSeparator (c : Char) : Bool :=
  (0x09 ≤ c.toNat && c.toNat ≤ 0x0D) || c == ' '

/-- The next word of a header and what follows the one separator after it. A comment runs from `#` to
the end of its line, and joins what stands on its two sides. -/
def headerWord (inComment : Bool) (word : List Char) : List Char → List Char × List Char
  | [] => (word, [])
  | c :: cs =>
    if inComment then headerWord (c != '\n' && c != '\r') word cs
    else if c = '#' then headerWord true word cs
    else if isSeparator c then if word.isEmpty then headerWord false word cs else (word, cs)
    else headerWord false (word ++ [c]) cs

/-- A count up to a limit, in decimal digits without a sign. -/
def count? (limit : Nat) (digits : List Char) : Option Nat :=
  if digits.isEmpty || !digits.all Char.isDigit then none
  else
    let n := Numeral.digitsValue digits
    if n ≤ limit then some n else none

def headerCount? (cs : List Char) : Option (Nat × List Char) :=
  let (word, rest) := headerWord false [] cs
  (count? 0xffffffff word).map (·, rest)

/-! ## Samples -/

/-- The bits of a plain bitmap; 1 is black. -/
def plainBits? : (count : Nat) → List Char → Option (List Nat)
  | 0, _ => some []
  | _, [] => none
  | count + 1, c :: cs =>
    if isSeparator c then plainBits? (count + 1) cs
    else if c = '0' then (plainBits? count cs).map (255 :: ·)
    else if c = '1' then (plainBits? count cs).map (0 :: ·)
    else none

/-- The words of a text whose first word has begun with `word`. -/
def words (word : List Char) : List Char → List (List Char)
  | [] => if word.isEmpty then [] else [word]
  | c :: cs =>
    if isSeparator c then (if word.isEmpty then words [] cs else word :: words [] cs)
    else words (word ++ [c]) cs

/-- The samples of a plain graymap or pixmap. -/
def plainSamples? (limit count : Nat) (cs : List Char) : Option (List Nat) :=
  let found := (words [] cs).take count
  if found.length = count then found.mapM (count? limit) else none

/-- The bits of a byte, the highest first; 1 is black. -/
def byteBits (byte : Nat) : List Nat :=
  (List.range 8).map fun i => if byte.testBit (7 - i) then 0 else 255

/-- The first `width` bits of the bytes of a row. -/
def rowBits (width : Nat) (row : List Nat) : List Nat :=
  (row.flatMap byteBits).take width

/-- The bits of a bitmap in bytes; every row begins with a new byte. -/
def packedBits? (width height : Nat) (bytes : List Nat) : Option (List Nat) :=
  let bytesOfRow := (width + 7) / 8
  if bytes.length < bytesOfRow * height then none
  else some ((Picture.chunk bytesOfRow height bytes).flatMap (rowBits width))

/-- Pairs of bytes as numbers, the high byte first. -/
def pairs : List Nat → List Nat
  | high :: low :: rest => (256 * high + low) :: pairs rest
  | _ => []

/-- The samples of a graymap or pixmap in bytes. -/
def packedSamples? (deep : Bool) (count : Nat) (bytes : List Nat) : Option (List Nat) :=
  let size := if deep then 2 * count else count
  if bytes.length < size then none
  else some (if deep then pairs (bytes.take size) else bytes.take size)

/-- A sample spread from the range up to `white` to the range up to `full`, in single precision. -/
def spread (white full v : Nat) : Nat :=
  if white = full then v
  else
    let factor := Float32.ofNat full / Float32.ofNat white
    min full (Double.roundToCount (Float32.ofNat v * factor).toFloat)

/-! ## Pictures -/

/-- The pixels of samples that reach up to 255, or up to 65535 when they are deep. -/
def pixels (deep : Bool) (channels : Nat) (samples : List Nat) : List Pixel :=
  (Picture.chunk channels (samples.length / channels) samples).map (Pixel.ofChannels deep)

def bitmap? (plain : Bool) (width height : Nat) (cs : List Char) : Option (List Pixel) :=
  (if plain then plainBits? (width * height) cs else packedBits? width height (cs.map Char.toNat)).map
    (pixels false 1)

def pixmap? (plain : Bool) (channels width height white : Nat) (cs : List Char) :
    Option (List Pixel) := do
  let deep := 255 < white
  let full := if deep then 65535 else 255
  let count := width * height * channels
  let samples ←
    if plain then plainSamples? full count cs else packedSamples? deep count (cs.map Char.toNat)
  return pixels deep channels (samples.map (spread white full))

def readChars? : List Char → Option Picture
  | 'P' :: digit :: cs => do
    let format ← format? digit
    let (width, cs) ← headerCount? cs
    let (height, cs) ← headerCount? cs
    match format.channels with
    | none => return .ofPixels width height (← bitmap? format.plain width height cs)
    | some channels =>
      let (white, cs) ← headerCount? cs
      if white = 0 ∨ 65535 < white then none
      else return .ofPixels width height (← pixmap? format.plain channels width height white cs)
  | _ => none

end Engraver.Netpbm
