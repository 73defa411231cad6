import Engraver.Number.Double

/-!
# The length of a vector

The square root of the sum of two squares, with one correction step for the rounding of the sum.
Very long and very short vectors are scaled by a power of two first, so the squares stay in range.
-/

namespace Engraver.Double

/-- The length for `longer ≥ shorter` in the middle of the range: the plain root, less the error of
its square against the two squares. -/
def correctedRoot (longer shorter : Float) : Float :=
  let root := Float.sqrt (longer * longer + shorter * shorter)
  if root ≤ 2.0 * shorter then
    let excess := root - shorter
    let first := longer * (2.0 * excess - longer)
    let second := (excess - 2.0 * (longer - shorter)) * excess
    root - (first + second) / (2.0 * root)
  else
    let excess := root - longer
    let first := 2.0 * excess * (longer - 2.0 * shorter)
    let second := (4.0 * excess - shorter) * shorter + excess * excess
    root - (first + second) / (2.0 * root)

/-- The length for `longer ≥ shorter ≥ 0`: beside a side that is `2 ^ 54` times longer the other is
lost in the rounding. -/
def lengthOfOrdered (longer shorter : Float) : Float :=
  let scale := twoPow (-600)
  let negligible := twoPow (-54)
  if twoPow 511 < longer then
    if shorter ≤ longer * negligible then longer + shorter
    else correctedRoot (longer * scale) (shorter * scale) / scale
  else if shorter < twoPow (-459) then
    if shorter / negligible ≤ longer then longer + shorter
    else correctedRoot (longer / scale) (shorter / scale) * scale
  else if shorter ≤ longer * negligible then longer + shorter
  else correctedRoot longer shorter

/-- The length of `(x, y)`: infinite as soon as one side is, even beside a NaN. -/
def length (x y : Float) : Float :=
  if x.isFinite && y.isFinite then
    let x := x.abs
    let y := y.abs
    if x < y then lengthOfOrdered y x else lengthOfOrdered x y
  else if x.isInf || y.isInf then infinity false
  else nan

end Engraver.Double
