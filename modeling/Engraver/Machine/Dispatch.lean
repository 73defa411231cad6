import Engraver.Machine.Rig

/-!
# Running programs

Commands run strictly in order. Whatever ends a run early – a fault, a refused move, a stop request,
the final stop – switches laser and motors off first, in the state and in the hardware.
-/

namespace Engraver

/-- The answer to a query. -/
inductive Response where
  | position (p : Point Float)
  | version (text : String)
  | endstops (switches : Endstops)

namespace Response

/-- The name and version that the machine goes by. -/
def firmware : String := "V0.1.0 of Sketch 'n' Etch firmware"

def toText : Response → String
  | position p => Notice.placeText 2 p
  | version text => text
  | endstops switches => toString switches.bits

end Response

/-- Why a run ended early, and at which line. -/
inductive ExecutionError where
  | motion (line : Nat) (fault : MotionFault)
  | plan (line : Nat) (refusal : Refusal Float)
  | stopRequested (line : Nat)

namespace ExecutionError

def line : ExecutionError → Nat
  | motion line _ | plan line _ | stopRequested line => line

def message : ExecutionError → String
  | motion line fault => s!"Line {line}: {fault.message}"
  | plan line refusal => s!"Line {line}: {refusal.message}"
  | stopRequested line => s!"Stop requested before line {line}"

/-- The error of a motion commanded at a line. -/
def ofMotion (line : Nat) : MotionError → ExecutionError
  | .fault f => .motion line f
  | .refused r => .plan line r

end ExecutionError

/-- What comes after a command. -/
inductive Flow where
  | next (answer : Option Response)
  | terminate

/-- How a run ended without an error. -/
inductive Outcome where
  | completed (responses : List Response)
  /-- The final stop was reached at a line. -/
  | terminated (line : Nat) (responses : List Response)

namespace Outcome

def responses : Outcome → List Response
  | completed responses | terminated _ responses => responses

/-- Whether the run reached the final stop. -/
def isTerminated : Outcome → Bool
  | completed _ => false
  | terminated .. => true

end Outcome

namespace Rig

variable {D : Type} [Driver D]

/-- The end of a run at a line. -/
def abort (r : Rig D) (line : Nat) (e : MotionError) : Except ExecutionError Flow × Rig D :=
  (.error (.ofMotion line e), (r.notify (.aborting line e)).shutDown)

/-- Set the step calibration that a command asks for, if it is positive. -/
def setStepCal (r : Rig D) : Option Float → Rig D
  | none => r.notify (.stepCalKept r.machine.stepCal)
  | some value =>
    if 0 < value then { r with machine := { r.machine with stepCal := value } }
    else r.notify (.stepCalIgnored value)

/-- Arm the laser, unless the power is zero or left out. -/
def armLaser (r : Rig D) (power : Option Float) : Rig D :=
  let power := power.getD 0
  let r := { r with machine := { r.machine with power } }
  if power != 0 then { r with machine := { r.machine with laser := true } } else r.laserOff

def perform (r : Rig D) (line : Nat) : Command → Except ExecutionError Flow × Rig D
  | .move kind x y feedrate =>
    match r.move ⟨kind, x, y, feedrate⟩ with
    | (.ok _, r) => (.ok (.next none), r)
    | (.error e, r) => r.abort line e
  | .home =>
    match r.home with
    | (.ok (), r) => (.ok (.next none), r)
    | (.error f, r) => r.abort line (.fault f)
  | .setMode mode => (.ok (.next none), { r with machine := { r.machine with mode } })
  | .setPosition x y =>
    (.ok (.next none), { r with machine := { r.machine with position := ⟨x, y⟩ } })
  | .stop .final => (.ok .terminate, r.shutDown)
  | .stop .sleep => (.ok (.next none), r.shutDown)
  | .laserOn power => (.ok (.next none), r.armLaser power)
  | .laserOff => (.ok (.next none), r.laserOff)
  | .enableMotors on => (.ok (.next none), r.setMotors on)
  | .setStepCal value => (.ok (.next none), r.setStepCal value)
  | .queryPosition => (.ok (.next (some (.position r.machine.position))), r)
  | .queryVersion => (.ok (.next (some (.version Response.firmware))), r)
  | .queryEndstops =>
    let (switches, driver) := Driver.readSwitches r.driver
    (.ok (.next (some (.endstops switches))), { r with driver })

/-- Run one line, unless a stop has been requested. -/
def step (r : Rig D) (line : ProgramLine) : Except ExecutionError Flow × Rig D :=
  let (stopped, stop) := r.stop.take
  let r := { r with stop }
  if stopped then
    (.error (.stopRequested line.line), (r.notify (.stopRequested line.line)).shutDown)
  else r.perform line.line line.command

/-- Run lines after those that gave the answers so far. -/
def runLines (r : Rig D) (responses : List Response) :
    List ProgramLine → Except ExecutionError Outcome × Rig D
  | [] => (.ok (.completed responses), r)
  | line :: lines =>
    match r.step line with
    | (.error e, r) => (.error e, r)
    | (.ok .terminate, r) => (.ok (.terminated line.line responses), r)
    | (.ok (.next answer), r) => r.runLines (responses ++ answer.toList) lines

def run (r : Rig D) (program : Program) : Except ExecutionError Outcome × Rig D :=
  r.runLines [] program.lines

end Rig

end Engraver
