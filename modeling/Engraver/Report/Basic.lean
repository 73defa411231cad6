import Engraver.Report.Json
import Engraver.Session.Basic

/-!
# Reports

Settings, plans, states and jobs as JSON values, with their fields in alphabetical order.
-/

namespace Engraver

open Json

/-! ## Settings -/

def MachineSettings.report (s : MachineSettings) : Json :=
  .object [("bed_xmax", number s.bedXmax), ("bed_ymax", number s.bedYmax),
    ("cut_speed", number s.cutSpeed), ("skew", number s.skew), ("step_cal", number s.stepCal),
    ("travel_speed", number s.travelSpeed)]

def RasterSettings.report (s : RasterSettings) : Json :=
  .object [("dpmm", number s.dpmm), ("invert", flag s.invert), ("path", ofOption text s.path),
    ("threshold", whole s.threshold.toNat)]

def BoardSettings.report (s : BoardSettings) : Json :=
  .object [("bed_xmax", number s.bedXmax), ("bed_ymax", number s.bedYmax),
    ("realtime", flag s.realtime), ("require_homing", flag s.requireHoming),
    ("steps_per_mm", number s.stepsPerMm)]

def SurveySettings.report (s : SurveySettings) : Json :=
  .object [("feedrate", number s.feedrate), ("fov", pair s.fov.x s.fov.y),
    ("offset", pair s.offset.x s.offset.y), ("overlap", pair s.overlap.x s.overlap.y)]

def Settings.report (s : Settings) : Json :=
  .object [("logging", .object [("level", text s.log.level)]), ("machine", s.machine.report),
    ("raster", s.raster.report), ("scan", s.survey.report), ("simulator", s.board.report)]

/-! ## Plans -/

def Summary.report (s : Summary) : Json :=
  .object [("actuator_a", whole s.a), ("actuator_b", whole s.b), ("duration_us", whole s.duration),
    ("laser_on_steps", whole s.laserSteps), ("steps", whole s.steps)]

def Step.report (s : Step) : Json :=
  .object [("a", whole s.a), ("b", whole s.b), ("duration_us", whole s.duration),
    ("laser_on", flag s.laser)]

/-- A plan by what it amounts to, or with all its steps. -/
def Plan.report (p : Plan) (withSteps : Bool) : Json :=
  if withSteps then
    .object [("steps", list (p.steps.map Step.report)), ("summary", p.summary.report)]
  else p.summary.report

/-! ## Machines and jobs -/

def MotionStats.report (s : MotionStats) : Json :=
  .object [("faults", whole s.faults), ("laser_on_steps", whole s.laserSteps),
    ("last_move", ofOption Summary.report s.last), ("moves", whole s.moves), ("steps", whole s.steps)]

def Positioning.name : Positioning → String
  | absolute => "Absolute"
  | relative => "Relative"

/-- The state of a machine, without what a run cannot change. -/
def Machine.report (m : Machine) : Json :=
  .object [("cut_speed", number m.cutSpeed), ("homed", flag m.homed), ("laser_enabled", flag m.laser),
    ("mode", text m.mode.name), ("motors_enabled", flag m.motors), ("step_cal", number m.stepCal),
    ("travel_speed", number m.travelSpeed), ("x", number m.position.x), ("y", number m.position.y)]

/-- The answer to a query, under the name of its kind. -/
def Response.report : Response → Json
  | position p => .object [("Position", .object [("x", number p.x), ("y", number p.y)])]
  | version t => .object [("Version", text t)]
  | endstops s => .object [("Endstops", whole s.bits)]

def JobStatus.name : JobStatus → String
  | idle => "Idle"
  | running => "Running"
  | completed => "Completed"
  | stopped => "Stopped"
  | terminated => "Terminated"
  | faulted => "Faulted"

def Job.report (job : Job) : Json :=
  .object [("current_line", ofOption (fun n : Nat => whole n) job.currentLine),
    ("error", ofOption (fun e : ExecutionError => text e.message) job.error),
    ("executed", whole job.executed), ("name", text job.name),
    ("responses", list (job.responses.map Response.report)), ("status", text job.status.name)]

end Engraver
