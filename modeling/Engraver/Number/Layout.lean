import Engraver.Number.Shortest

/-!
# How numbers are written

The digits of a double are fixed by `Decimal.ofDouble`; a layout decides how they are set out. Texts
with a fixed number of places are rounded from the exact value instead.
-/

namespace Engraver

/-- Where a kind of text keeps a point and where it turns to an exponent. -/
structure Layout where
  /-- Whole numbers keep `.0`. -/
  keepsPoint : Bool
  /-- The weights of the leading digit, as powers of ten, that are written without an exponent. -/
  positional : Int → Bool

namespace Layout

/-- Commands, messages and answers: no exponent, no idle `.0`. -/
def plain : Layout := ⟨false, fun _ => true⟩

/-- Values shown inside their constructors: from `0.0001` up to below `1e16` without an exponent. -/
def inspected : Layout := ⟨true, fun k => -4 ≤ k ∧ k ≤ 15⟩

/-- Numbers of a JSON document: from `0.00001` up to below `1e16` without an exponent. -/
def document : Layout := ⟨true, fun k => -5 ≤ k ∧ k ≤ 15⟩

end Layout

namespace Decimal

/-- The power of ten of the leading digit. -/
def leadingPower (d : Decimal) : Int :=
  d.exponent + d.digitChars.length - 1

/-- The digits with a point and zeros where they are needed. -/
def positionalChars (keepsPoint : Bool) (d : Decimal) : List Char :=
  let cs := d.digitChars
  if 0 ≤ d.exponent then
    cs ++ List.replicate d.exponent.toNat '0' ++ if keepsPoint then ['.', '0'] else []
  else
    let places := (-d.exponent).toNat
    if places < cs.length then
      cs.take (cs.length - places) ++ '.' :: cs.drop (cs.length - places)
    else '0' :: '.' :: (List.replicate (places - cs.length) '0' ++ cs)

/-- The digits with a point after the first, and the power of ten of the leading digit. -/
def exponentChars (d : Decimal) : List Char :=
  let power := (toString d.leadingPower).toList
  match d.digitChars with
  | [] => []
  | [c] => c :: 'e' :: power
  | c :: cs => c :: '.' :: (cs ++ 'e' :: power)

/-- A decimal set out by a layout; zero is never given an exponent. -/
def chars (layout : Layout) (d : Decimal) : List Char :=
  if d.digits = 0 ∨ layout.positional d.leadingPower then d.positionalChars layout.keepsPoint
  else d.exponentChars

end Decimal

namespace Double

def signChars (negative : Bool) : List Char :=
  if negative then ['-'] else []

def chars (layout : Layout) (x : Float) : List Char :=
  match reading x with
  | .nan => ['N', 'a', 'N']
  | .infinite negative => signChars negative ++ ['i', 'n', 'f']
  | .finite negative m e => signChars negative ++ (Decimal.ofDouble m e).chars layout

/-- The text of a double in commands, messages and answers. -/
def toText (x : Float) : String :=
  .ofList (chars .plain x)

/-- The text of a double shown inside a constructor. -/
def inspect (x : Float) : String :=
  .ofList (chars .inspected x)

/-- The digits of `n` hundredths, thousandths, …, with a point before the last `places`. -/
def placesChars (places n : Nat) : List Char :=
  let cs := Nat.toDigits 10 n
  let padded := List.replicate (places + 1 - cs.length) '0' ++ cs
  padded.take (padded.length - places) ++ '.' :: padded.drop (padded.length - places)

/-- The text of a double with a fixed number of places, rounded from its exact value; a half goes to
the even digit, and negative zero keeps its sign. -/
def toPlaces (places : Nat) (x : Float) : String :=
  .ofList <|
    match reading x with
    | .nan => ['N', 'a', 'N']
    | .infinite negative => signChars negative ++ ['i', 'n', 'f']
    | .finite negative m e =>
      let (num, den) := Decimal.fraction m e
      signChars negative ++ placesChars places (roundHalfEven (num * Nat.pow 10 places) den)

end Double

end Engraver
