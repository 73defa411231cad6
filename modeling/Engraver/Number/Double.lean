/-!
# Doubles as exact numbers

A finite double is a signed mantissa times a power of two. Everything that rounds a double to a
whole number is stated on that reading, so no rounding here is itself rounded.
-/

namespace Engraver.Double

/-- What a double stands for: `finite` is `±mantissa · 2 ^ exponent`. -/
inductive Reading where
  | nan
  | infinite (negative : Bool)
  | finite (negative : Bool) (mantissa : Nat) (exponent : Int)
deriving Repr, DecidableEq

/-- The sign bit, the highest of sixty-four. -/
def signBit : Nat := 0x8000000000000000

/-- The lowest exponent bit, above fifty-two fraction bits. -/
def fieldBit : Nat := 0x10000000000000

/-- The reading of a bit pattern: one sign bit, eleven exponent bits, fifty-two fraction bits. -/
def Reading.ofBits (bits : Nat) : Reading :=
  let negative := bits / signBit % 2 == 1
  let field : Nat := bits / fieldBit % 2048
  let fraction : Nat := bits % fieldBit
  if field = 2047 then
    if fraction = 0 then .infinite negative else .nan
  else if field = 0 then .finite negative fraction (-1074)
  else .finite negative (fieldBit + fraction) ((field : Int) - 1075)

def reading (x : Float) : Reading :=
  .ofBits x.toBits.toNat

/-! ## Rounding `mantissa · 2 ^ exponent` to a whole number -/

/-- The largest whole number not above `m · 2 ^ e`. -/
def floorScaled (m : Nat) (e : Int) : Nat :=
  if 0 ≤ e then m * Nat.pow 2 e.toNat else m / Nat.pow 2 (-e).toNat

/-- The smallest whole number not below `m · 2 ^ e`. -/
def ceilScaled (m : Nat) (e : Int) : Nat :=
  if 0 ≤ e then m * Nat.pow 2 e.toNat
  else (m + Nat.pow 2 (-e).toNat - 1) / Nat.pow 2 (-e).toNat

/-- The whole number nearest to `m · 2 ^ e`; a half goes up. -/
def roundScaled (m : Nat) (e : Int) : Nat :=
  if 0 ≤ e then m * Nat.pow 2 e.toNat
  else (2 * m + Nat.pow 2 (-e).toNat) / (2 * Nat.pow 2 (-e).toNat)

/-- The sign put back on a magnitude. -/
def signed (negative : Bool) (n : Nat) : Int :=
  if negative then -(n : Int) else n

/-- The smallest whole number not below `x`; none for NaN and the infinities. -/
def ceil? (x : Float) : Option Int :=
  match reading x with
  | .finite false m e => some (ceilScaled m e)
  | .finite true m e => some (-(floorScaled m e : Int))
  | _ => none

/-- The largest count that a 64-bit counter holds. -/
def maxCount : Nat := 0xffffffffffffffff

/-- The smallest number of a signed 64-bit counter. -/
def minSteps : Int := -0x8000000000000000

/-- The largest number of a signed 64-bit counter. -/
def maxSteps : Int := 0x7fffffffffffffff

/-- The nearest count: NaN and negative values give 0, values past the counter its maximum. -/
def roundToCount (x : Float) : Nat :=
  match reading x with
  | .nan => 0
  | .infinite negative => if negative then 0 else maxCount
  | .finite negative m e => if negative then 0 else min (roundScaled m e) maxCount

/-- The nearest whole number in the range of a signed 64-bit counter, a half going away from zero;
NaN gives 0. -/
def roundToSteps (x : Float) : Int :=
  match reading x with
  | .nan => 0
  | .infinite true => minSteps
  | .infinite false => maxSteps
  | .finite negative m e => max minSteps (min (signed negative (roundScaled m e)) maxSteps)

/-! ## The nearest double to a ratio -/

/-- `n / d` to the nearest whole number; a half goes to the even neighbour. -/
def roundHalfEven (n d : Nat) : Nat :=
  let quotient := n / d
  let twice := 2 * (n % d)
  if twice < d then quotient
  else if d < twice then quotient + 1
  else quotient + quotient % 2

/-- The `k` with `2 ^ k ≤ num / den < 2 ^ (k + 1)`, for positive `num` and `den`. -/
def binaryExponent (num den : Nat) : Int :=
  let k : Int := (num.log2 : Int) - den.log2
  let reaches := if 0 ≤ k then den * Nat.pow 2 k.toNat ≤ num else den ≤ num * Nat.pow 2 (-k).toNat
  if reaches then k else k - 1

/-- The bits of the double nearest to `num / den`, counted on past the finite range. -/
def nearestBits (num den : Nat) : Nat :=
  if num = 0 then 0
  else
    let unit := max (-1074) (binaryExponent num den - 52)
    let mantissa :=
      if 0 ≤ unit then roundHalfEven num (den * Nat.pow 2 unit.toNat)
      else roundHalfEven (num * Nat.pow 2 (-unit).toNat) den
    (unit + 1074).toNat * fieldBit + mantissa

def infinityBits : Nat := 2047 * fieldBit

/-- The double with the given sign and magnitude bits. -/
def ofMagnitude (negative : Bool) (bits : Nat) : Float :=
  .ofBits (.ofNat (min bits infinityBits + if negative then signBit else 0))

/-- The double nearest to `±num / den`; a tie goes to the even mantissa, an overflow to infinity. -/
def nearest (negative : Bool) (num den : Nat) : Float :=
  ofMagnitude negative (nearestBits num den)

def nan : Float := .ofBits 0x7ff8000000000000

def infinity (negative : Bool) : Float := ofMagnitude negative infinityBits

/-- `2 ^ k` for a `k` in the normal range. -/
def twoPow (k : Int) : Float := ofMagnitude false ((k + 1023).toNat * fieldBit)

end Engraver.Double
