import Engraver.Hardware.Driver
import Engraver.Machine.Notice
import Engraver.Machine.State

/-!
# The rig

A rig is a machine with its hardware: the state, the driver, the counters of its moves, the stop
requests and the log. A move changes the position only when the hardware reports that all of it ran.
-/

namespace Engraver

/-- Counters of the moves of one rig. -/
structure MotionStats where
  moves : Nat := 0
  steps : Nat := 0
  laserSteps : Nat := 0
  faults : Nat := 0
  last : Option Summary := none
deriving Repr, DecidableEq

/-- Requests to stop. They may come at any time and are looked at only between commands, so what
counts is whether one came before each look. -/
structure StopLine where
  /-- A request waits to be looked at. -/
  pending : Bool := false
  /-- For each look to come, whether a request will have come since the look before it. -/
  coming : List Bool := []
deriving Repr, DecidableEq

namespace StopLine

/-- Ask for a stop now. -/
def request (s : StopLine) : StopLine :=
  { s with pending := true }

/-- Look for a request and use it up. -/
def take (s : StopLine) : Bool × StopLine :=
  (s.pending || s.coming.headD false, ⟨false, s.coming.tail⟩)

end StopLine

/-- A machine with its hardware. -/
structure Rig (D : Type) where
  machine : Machine
  driver : D
  stats : MotionStats := {}
  stop : StopLine := {}
  log : List Notice := []

/-- A move as it is commanded. Coordinates are meant by the machine's mode; the feedrate is in
millimetres per minute. -/
structure Move where
  kind : MoveKind
  x : Option Float
  y : Option Float
  feedrate : Option Float

namespace Move

/-- A rapid move with both coordinates. -/
def rapid (x y : Float) (feedrate : Option Float) : Move :=
  ⟨.rapid, some x, some y, feedrate⟩

end Move

/-- A feedrate in millimetres per second for the speed that a move of this kind goes at; one that is
not positive is ignored. -/
def Machine.withFeedrate (m : Machine) (kind : MoveKind) (feedrate : Float) : Machine :=
  if feedrate ≤ 0 then m
  else if m.cuts kind then m.setSpeeds (some (feedrate / 60.0)) none
  else m.setSpeeds none (some (feedrate / 60.0))

namespace Rig

variable {D E : Type}

def withDriver (r : Rig D) (driver : E) : Rig E :=
  { machine := r.machine, driver, stats := r.stats, stop := r.stop, log := r.log }

def notify (r : Rig D) (notice : Notice) : Rig D :=
  { r with log := r.log ++ [notice] }

/-- One more line in the log, if it applies. -/
def notifyIf (r : Rig D) (applies : Bool) (notice : Notice) : Rig D :=
  if applies then r.notify notice else r

/-- One more fault, and a line about it. -/
def fault (r : Rig D) (notice : Notice) : Rig D :=
  { r with stats := { r.stats with faults := r.stats.faults + 1 } }.notify notice

variable [Driver D]

/-! ## Outputs -/

/-- Switch the motors of the machine and of its hardware. -/
def setMotors (r : Rig D) (on : Bool) : Rig D :=
  let (heeded, driver) := Driver.setMotors on r.driver
  { r with machine := r.machine.setMotors on, driver }.notifyIf (!heeded) .motorsIgnored

/-- Disarm the laser and switch it off. -/
def laserOff (r : Rig D) : Rig D :=
  { r with machine := { r.machine with laser := false }, driver := Driver.laserOff r.driver }

/-- Laser and motors off, in the state and in the hardware. -/
def shutDown (r : Rig D) : Rig D :=
  r.laserOff.setMotors false

/-! ## Motion -/

/-- Seek the reference switches; where they are found is the origin. -/
def home (r : Rig D) : Except MotionFault Unit × Rig D :=
  let r := r.setMotors true
  let (code, driver) := Driver.home r.driver
  let r := { r with driver }
  let status := Status.ofCode code
  if status.isCompleted then
    (.ok (), { r with machine := { r.machine with position := ⟨0, 0⟩, homed := true } })
  else (.error ⟨status⟩, r.fault (.homingFailed status))

/-- Set the speed that a feedrate word asks for. -/
def applyFeedrate (r : Rig D) (kind : MoveKind) : Option Float → Rig D
  | none => r
  | some f =>
    { r with machine := r.machine.withFeedrate kind f }.notifyIf (f ≤ 0) (.feedrateIgnored f)

def isOutside (bed p : Point Float) : Bool :=
  p.x < 0 || p.y < 0 || bed.x < p.x || bed.y < p.y

/-- The rig after its hardware answered a plan: one more move, and on completion the new position. -/
def settle (r : Rig D) (target : Point Float) (summary : Summary) (status : Status) :
    Except MotionError Summary × Rig D :=
  let r := { r with stats := { r.stats with moves := r.stats.moves + 1, last := some summary } }
  if status.isCompleted then
    let stats := { r.stats with
      steps := r.stats.steps + summary.steps
      laserSteps := r.stats.laserSteps + summary.laserSteps }
    (.ok summary, { r with stats, machine := { r.machine with position := target } })
  else (.error (.fault ⟨status⟩), r.fault (.moveAborted target status))

/-- Run one move. A move that has no plan never reaches the hardware. -/
def move (r : Rig D) (move : Move) : Except MotionError Summary × Rig D :=
  let r := r.applyFeedrate move.kind move.feedrate
  let delta := r.machine.delta move.x move.y
  let start := r.machine.position
  let target : Point Float := ⟨start.x + delta.x, start.y + delta.y⟩
  let r := r.notifyIf (isOutside r.machine.bed target) (.outsideBed target r.machine.bed)
  match r.machine.plan move.kind delta with
  | .error refusal => (.error (.refused refusal), r.fault (.moveRefused target refusal))
  | .ok plan =>
    let (code, driver) := Driver.execute plan r.driver
    { r with driver }.settle target plan.summary (.ofCode code)

end Rig

end Engraver
