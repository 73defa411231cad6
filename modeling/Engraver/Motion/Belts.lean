import Engraver.Number.Length
import Engraver.Number.Scalar

/-!
# Two belts

The head hangs on two belts: belt A follows `x + y` and belt B follows `x - y`, both counted in
steps. A gantry that is not square shears x by a share of y, and the belts make up for it.
-/

namespace Engraver

/-- A place or a displacement in the plane, in millimetres. -/
structure Point (α : Type) where
  x : α
  y : α
deriving Repr, DecidableEq

/-- One value for each belt. -/
structure OnBelts (α : Type) where
  a : α
  b : α
deriving Repr, DecidableEq

/-- The drive: steps per millimetre, and the share of y by which x is sheared. -/
structure Belts (α : Type) where
  stepCal : α
  shear : α

namespace Belts

/-- The tangent, which is exact at zero. -/
def tangent (x : Float) : Float :=
  if x == 0 then x else Float.tan x

/-- The drive of a gantry that is `skew` degrees off the square. -/
def ofSkew (stepCal skew : Float) : Belts Float :=
  ⟨stepCal, tangent (skew * (3.141592653589793 / 180.0))⟩

variable {α : Type} [Scalar α]

/-- A displacement corrected for the skew. -/
def skewed (belts : Belts α) (d : Point α) : Point α :=
  ⟨d.x + d.y * belts.shear, d.y⟩

/-- The belt travel of a displacement, in steps and parts of steps. -/
def travel (belts : Belts α) (d : Point α) : OnBelts α :=
  let s := belts.skewed d
  ⟨(s.x + s.y) * belts.stepCal, (s.x - s.y) * belts.stepCal⟩

/-- The displacement that a belt travel makes; none at all when no steps make a millimetre. -/
def displacement (belts : Belts α) (t : OnBelts α) : Point α :=
  if Scalar.isZero belts.stepCal then ⟨0.0, 0.0⟩
  else
    let sx := (t.a + t.b) / (2.0 * belts.stepCal)
    let y := (t.a - t.b) / (2.0 * belts.stepCal)
    ⟨sx - y * belts.shear, y⟩

end Belts

end Engraver
