import Engraver.Motion.Plan
import Engraver.Motion.Stepper
import Engraver.Raster.Mask

/-!
# From a stroke to a plan

A stroke is one straight move from a place on the bed. Its plan has as many steps as its busier belt,
the laser is decided at the place that each step reaches, and the time of the whole stroke is shared
out so that the first `k` of `n` steps take `⌊time · k / n⌋` microseconds.
-/

namespace Engraver

/-- Why a stroke has no plan. -/
inductive Refusal (α : Type) where
  /-- The belt travel is not finite. -/
  | notFinite (delta : Point α)
  | tooLong (steps limit : Nat)

def Refusal.message : Refusal Float → String
  | notFinite delta =>
    "Move delta (" ++ Double.toText delta.x ++ ", " ++ Double.toText delta.y ++
      ") does not map to finite actuator counts"
  | tooLong steps limit => s!"Move needs {steps} steps, more than the {limit} allowed"

/-- What the laser does during a stroke. -/
inductive Beam where
  | off
  /-- On wherever the raster reaches the threshold. -/
  | through (raster : Raster) (threshold : UInt8)

/-- Whether the laser fires at a place; never where the raster is dark. -/
def Beam.fires (beam : Beam) (place : Point Float) : Bool :=
  match beam with
  | .off => false
  | .through raster threshold =>
    let intensity := raster.sample place.x place.y
    0 < intensity && threshold ≤ intensity

/-- No plan has more steps than this, whatever the bed. -/
def maxPlanSteps : Nat := 4194304

/-- A straight move: where it starts, where it goes from there, how fast (mm/s), and the longest
plan that is accepted. -/
structure Stroke where
  start : Point Float
  delta : Point Float
  speed : Float
  beam : Beam
  maxSteps : Nat

namespace Stroke

variable {α : Type} [Scalar α]

/-- The steps of the busier belt. -/
def neededSteps (t : OnBelts α) : Nat :=
  Scalar.roundCount (Scalar.larger (Scalar.abs t.a) (Scalar.abs t.b))

/-- The whole-step totals of a displacement, if they are finite and within the limit. -/
def stepper (belts : Belts α) (limit : Nat) (delta : Point α) : Except (Refusal α) Stepper :=
  let t := belts.travel delta
  if !Scalar.isFinite t.a || !Scalar.isFinite t.b then .error (.notFinite delta)
  else if limit < neededSteps t then .error (.tooLong (neededSteps t) limit)
  else .ok (.ofTravel t)

/-- The time of a stroke in whole microseconds; 0 without a positive speed. -/
def time (s : Stroke) : Nat :=
  if 0 < s.speed then Double.roundToCount (Double.length s.delta.x s.delta.y / s.speed * 1e6) else 0

/-- The place on the bed that the head reaches when the belts have moved by `t`. -/
def place (s : Stroke) (belts : Belts Float) (t : OnBelts Int) : Point Float :=
  let d := belts.displacement ⟨(t.a : Float), (t.b : Float)⟩
  ⟨s.start.x + d.x, s.start.y + d.y⟩

/-- The microseconds of the first `k` of `n` steps when all of them take `total`. -/
def elapsed (total n k : Nat) : Nat :=
  total * k / n

/-- Step `i`, counted from 0. -/
def stepAt (s : Stroke) (belts : Belts Float) (stepper : Stepper) (total i : Nat) : Step :=
  let move := stepper.moveAt i
  let n := stepper.length
  { a := move.a
    b := move.b
    laser := s.beam.fires (s.place belts (stepper.positionAt (i + 1)))
    duration := elapsed total n (i + 1) - elapsed total n i }

def plan (s : Stroke) (belts : Belts Float) : Except (Refusal Float) Plan :=
  (stepper belts (min s.maxSteps maxPlanSteps) s.delta).map fun stepper =>
    let total := s.time
    ⟨(List.range stepper.length).map (s.stepAt belts stepper total)⟩

end Stroke

end Engraver
