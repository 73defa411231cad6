import Engraver.Gcode.Command
import Engraver.Motion.Stroke
import Engraver.Settings.Basic

/-!
# The machine's state

Calibration, modes and the logical position of one machine. Changing them moves nothing.
-/

namespace Engraver

/-- The state of one machine. The position counts from the last homing or set position. -/
structure Machine where
  position : Point Float
  mode : Positioning
  /-- The laser is armed: controlled moves cut. -/
  laser : Bool
  power : Float
  homed : Bool
  motors : Bool
  stepCal : Float
  cutSpeed : Float
  travelSpeed : Float
  bed : Point Float
  skew : Float
  raster : Raster
  threshold : UInt8

namespace Machine

/-- The state when the machine is switched on, before a picture is loaded. -/
def powerOn (settings : Settings) : Machine where
  position := ⟨0, 0⟩
  mode := .absolute
  laser := false
  power := 0
  homed := false
  motors := false
  stepCal := settings.machine.stepCal
  cutSpeed := settings.machine.cutSpeed
  travelSpeed := settings.machine.travelSpeed
  bed := ⟨settings.machine.bedXmax, settings.machine.bedYmax⟩
  skew := settings.machine.skew
  raster := .wholeBed
  threshold := settings.raster.threshold

/-- Switch the motors; without them the machine no longer knows where it is. -/
def setMotors (m : Machine) (on : Bool) : Machine :=
  { m with motors := on, homed := m.homed && on }

/-- A new speed, unless it is absent or zero. -/
def speedOr (current : Float) (new : Option Float) : Float :=
  match new with
  | some speed => if speed != 0 then speed else current
  | none => current

/-- Set either speed; absent and zero speeds keep what is set. -/
def setSpeeds (m : Machine) (cut travel : Option Float) : Machine :=
  { m with cutSpeed := speedOr m.cutSpeed cut, travelSpeed := speedOr m.travelSpeed travel }

/-- Replace mask and resolution together. -/
def setRaster (m : Machine) (mask : Mask) (dpmm : Float) : Except RasterFault Machine :=
  (Raster.make mask dpmm).map fun raster => { m with raster }

/-! ## Moves -/

def cuts (m : Machine) : MoveKind → Bool
  | .controlled => m.laser
  | .rapid => false

/-- Where a move goes from the current position, by the coordinates as they are meant. -/
def delta (m : Machine) (x y : Option Float) : Point Float :=
  match m.mode with
  | .absolute => ⟨(x.map (· - m.position.x)).getD 0, (y.map (· - m.position.y)).getD 0⟩
  | .relative => ⟨x.getD 0, y.getD 0⟩

/-- Twice the belt travel between opposite corners of a bed, in whole steps. -/
def stepLimit {α : Type} [Scalar α] (bed : Point α) (stepCal : α) : Nat :=
  let steps := 2.0 * (Scalar.abs bed.x + Scalar.abs bed.y) * stepCal
  if Scalar.isFinite steps then min (Scalar.ceil steps).toNat maxPlanSteps else maxPlanSteps

def belts (m : Machine) : Belts Float :=
  .ofSkew m.stepCal m.skew

/-- The stroke of a displacement: a cutting move goes at cutting speed and shows the raster to the
laser. -/
def stroke (m : Machine) (kind : MoveKind) (delta : Point Float) : Stroke where
  start := m.position
  delta := delta
  speed := if m.cuts kind then m.cutSpeed else m.travelSpeed
  beam := if m.cuts kind then .through m.raster m.threshold else .off
  maxSteps := stepLimit m.bed m.stepCal

def plan (m : Machine) (kind : MoveKind) (delta : Point Float) : Except (Refusal Float) Plan :=
  (m.stroke kind delta).plan m.belts

end Machine

end Engraver
