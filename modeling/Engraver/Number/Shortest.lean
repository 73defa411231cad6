import Engraver.Number.Numeral

/-!
# The fewest digits that read back

A double is written with the smallest number of decimal digits that reads back to it, and among
those with the digits nearest to its exact value.
-/

namespace Engraver

/-- The decimal `digits · 10 ^ exponent`. -/
structure Decimal where
  digits : Nat
  exponent : Int
deriving Repr, DecidableEq

namespace Decimal

def toDouble (d : Decimal) : Float :=
  Numeral.nearestDecimal false d.digits d.exponent

/-- Whether a decimal reads back to the double of the given bits. -/
def readsBack (bits : UInt64) (d : Decimal) : Bool :=
  d.toDouble.toBits == bits

/-- `m · 2 ^ e` as a fraction. -/
def fraction (m : Nat) (e : Int) : Nat × Nat :=
  if 0 ≤ e then (m * Nat.pow 2 e.toNat, 1) else (m, Nat.pow 2 (-e).toNat)

/-- `num / den` counted in units of `10 ^ unit`, as a fraction. -/
def inUnits (num den : Nat) (unit : Int) : Nat × Nat :=
  if 0 ≤ unit then (num, den * Nat.pow 10 unit.toNat) else (num * Nat.pow 10 (-unit).toNat, den)

/-- A `k` with `10 ^ (k - 1) ≤ num / den < 10 ^ k`, reached from an estimate by single steps. -/
def decimalExponent (num den : Nat) : Int :=
  let estimate : Int := (((num.log2 : Int) - den.log2) * 30103) / 100000
  let atLeast (k : Int) : Bool := let (n, d) := inUnits num den k; d ≤ n
  if atLeast (estimate + 1) then estimate + 2
  else if atLeast estimate then estimate + 1
  else if atLeast (estimate - 1) then estimate
  else estimate - 1

/-- The same decimal with up to `fuel` trailing zeros taken off. -/
def strip (fuel : Nat) (d : Decimal) : Decimal :=
  match fuel with
  | 0 => d
  | fuel + 1 =>
    if d.digits ≠ 0 ∧ d.digits % 10 = 0 then strip fuel ⟨d.digits / 10, d.exponent + 1⟩ else d

/-- Of the two decimals on the grid of `10 ^ unit` around `num / den`, the nearer one that reads
back, without trailing zeros. A tie goes up. -/
def onGrid? (bits : UInt64) (num den : Nat) (unit : Int) : Option Decimal :=
  let (n, d) := inUnits num den unit
  let below := strip 17 ⟨n / d, unit⟩
  let above := strip 17 ⟨n / d + 1, unit⟩
  match readsBack bits below, readsBack bits above with
  | true, true => some (if 2 * (n % d) < d then below else above)
  | true, false => some below
  | false, true => some above
  | false, false => none

/-- All digits of `m · 2 ^ e`. -/
def exact (m : Nat) (e : Int) : Decimal :=
  if 0 ≤ e then ⟨m * Nat.pow 2 e.toNat, 0⟩ else ⟨m * Nat.pow 5 (-e).toNat, e⟩

/-- The first of the grids with one, two, … digits that holds a decimal which reads back. -/
def shortest (m : Nat) (e : Int) : Decimal :=
  let bits := (Double.nearest false (fraction m e).1 (fraction m e).2).toBits
  let (num, den) := fraction m e
  let top := decimalExponent num den
  ((List.range 17).findSome? fun (k : Nat) => onGrid? bits num den (top - 1 - k)).getD (exact m e)

def digitChars (d : Decimal) : List Char :=
  Nat.toDigits 10 d.digits

/-- The decimal of a finite double, with no trailing zero. -/
def ofDouble (m : Nat) (e : Int) : Decimal :=
  if m = 0 then ⟨0, 0⟩ else shortest m e

end Decimal

end Engraver
