import Engraver.Number.Double

/-!
# Decimal numerals

A numeral is an optional sign followed by digits with an optional point and exponent, or by the
name of infinity or NaN in any case. Its value is the double nearest to what it says.
-/

namespace Engraver

/-- A number as written: `digits` is `±digits · 10 ^ exponent`. -/
inductive Numeral where
  | nan (negative : Bool)
  | infinity (negative : Bool)
  | digits (negative : Bool) (digits : Nat) (exponent : Int)
deriving Repr, DecidableEq

namespace Numeral

def digitsValue (cs : List Char) : Nat :=
  cs.foldl (fun value c => 10 * value + (c.toNat - '0'.toNat)) 0

/-- An optional sign and what follows it. -/
def splitSign : List Char → Bool × List Char
  | '+' :: rest => (false, rest)
  | '-' :: rest => (true, rest)
  | cs => (false, cs)

/-- A whole number with an optional sign; at least one digit. -/
def readWhole? (cs : List Char) : Option Int :=
  let (negative, body) := splitSign cs
  if body.isEmpty || !body.all Char.isDigit then none
  else some (Double.signed negative (digitsValue body))

/-- An exponent part, or nothing at all. -/
def readExponent? : List Char → Option Int
  | [] => some 0
  | c :: rest => if c == 'e' || c == 'E' then readWhole? rest else none

/-- The fraction digits after a point, if there is one, and what follows them. -/
def splitFraction : List Char → List Char × List Char
  | '.' :: rest => rest.span Char.isDigit
  | cs => ([], cs)

/-- Digits with an optional point and exponent; a digit must stand on one side of the point. -/
def readDigits? (negative : Bool) (cs : List Char) : Option Numeral :=
  let (whole, afterWhole) := cs.span Char.isDigit
  let (fraction, afterFraction) := splitFraction afterWhole
  if whole.isEmpty && fraction.isEmpty then none
  else
    (readExponent? afterFraction).map fun exponent =>
      .digits negative (digitsValue (whole ++ fraction)) (exponent - fraction.length)

/-- The numeral that a text spells, if it spells one. -/
def read? (cs : List Char) : Option Numeral :=
  let (negative, body) := splitSign cs
  let name := String.ofList (body.map Char.toLower)
  if name == "nan" then some (.nan negative)
  else if name == "inf" || name == "infinity" then some (.infinity negative)
  else readDigits? negative body

/-- The double nearest to `±m · 10 ^ e`. Powers that certainly overflow or vanish are not raised. -/
def nearestDecimal (negative : Bool) (m : Nat) (e : Int) : Float :=
  if m = 0 then Double.nearest negative 0 1
  else if 1024 ≤ (m.log2 : Int) + 3 * e ∧ 0 ≤ e then Double.infinity negative
  else if (m.log2 : Int) + 3 * e < -1080 ∧ e < 0 then Double.nearest negative 0 1
  else if 0 ≤ e then Double.nearest negative (m * Nat.pow 10 e.toNat) 1
  else Double.nearest negative m (Nat.pow 10 (-e).toNat)

def value : Numeral → Float
  | .nan _ => Double.nan
  | .infinity negative => Double.infinity negative
  | .digits negative m e => nearestDecimal negative m e

end Numeral

namespace Double

/-- The double that a text spells, if it spells one. -/
def read? (text : List Char) : Option Float :=
  (Numeral.read? text).map Numeral.value

end Double

end Engraver
