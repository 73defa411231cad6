import Engraver.Number.Double

/-!
# The numbers of the geometry

Distances, belt travel and tile centres are computed with doubles, and their laws are stated with
rationals. A scalar is what the formulas need of either.
-/

namespace Engraver

/-- Numbers that the geometry can be computed with. -/
class Scalar (α : Type) extends Add α, Sub α, Mul α, Div α, Neg α, IntCast α, OfScientific α,
    LT α, LE α where
  decLt : DecidableLT α
  decLe : DecidableLE α
  /-- Neither infinite nor NaN. -/
  isFinite : α → Bool
  isZero : α → Bool
  /-- The nearest whole number, a half going away from zero. -/
  round : α → Int
  /-- The same for a number that is not negative; below zero the answer is 0. -/
  roundCount : α → Nat
  /-- The smallest whole number not below; 0 where there is none. -/
  ceil : α → Int
  /-- Toward zero, into the range of a 64-bit counter. -/
  count : α → UInt64

namespace Scalar

variable {α : Type} [Scalar α]

instance : DecidableLT α := Scalar.decLt

instance : DecidableLE α := Scalar.decLe

def abs (x : α) : α :=
  if x < 0.0 then -x else x

def larger (x y : α) : α :=
  if x < y then y else x

end Scalar

/-- Whole numbers read from doubles stop at the ends of the 64-bit range. -/
instance : Scalar Float where
  intCast := Float.ofInt
  decLt := inferInstance
  decLe := inferInstance
  isFinite := Float.isFinite
  isZero x := x == 0
  round := Double.roundToSteps
  roundCount := Double.roundToCount
  ceil x := (Double.ceil? x).getD 0
  count := Float.toUInt64

/-- The nearest whole number to a rational, a half going away from zero. -/
def Rat.roundAway (x : Rat) : Int :=
  if x < 0 then -(-x + 1 / 2).floor else (x + 1 / 2).floor

/-- Rationals are exact, and only the count of tiles keeps its range. -/
instance : Scalar Rat where
  intCast := Int.cast
  decLt := inferInstance
  decLe := inferInstance
  isFinite _ := true
  isZero x := x == 0
  round := Rat.roundAway
  roundCount x := (Rat.roundAway x).toNat
  ceil := Rat.ceil
  count x := .ofNat (min x.floor.toNat Double.maxCount)

end Engraver
