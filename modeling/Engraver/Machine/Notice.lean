import Engraver.Gcode.Program
import Engraver.Hardware.Status
import Engraver.Motion.Stroke

/-!
# Notices

What the machine warns of or complains about while it works.
-/

namespace Engraver

/-- Why a move did not complete. -/
inductive MotionError where
  | fault (fault : MotionFault)
  | refused (refusal : Refusal Float)

def MotionError.message : MotionError → String
  | fault f => f.message
  | refused r => r.message

/-- How much a notice matters. -/
inductive Level where
  | warn
  | error
deriving Repr, DecidableEq

/-- Something worth a line in the log. -/
inductive Notice where
  | motorsIgnored
  | feedrateIgnored (feedrate : Float)
  | outsideBed (target bed : Point Float)
  | moveRefused (target : Point Float) (refusal : Refusal Float)
  | moveAborted (target : Point Float) (status : Status)
  | homingFailed (status : Status)
  | stopRequested (line : Nat)
  | aborting (line : Nat) (cause : MotionError)
  | stepCalIgnored (value : Float)
  | stepCalKept (current : Float)
  | claimFailed (cause : HardwareError)
  | sourceRejected (cause : LineError)

namespace Notice

/-- What is ignored or survived is a warning; what fails is an error. -/
def level : Notice → Level
  | moveRefused .. | moveAborted .. | homingFailed .. | aborting .. | claimFailed ..
  | sourceRejected .. => .error
  | _ => .warn

/-- A place with a fixed number of places after the point. -/
def placeText (places : Nat) (p : Point Float) : String :=
  "X:" ++ Double.toPlaces places p.x ++ " Y:" ++ Double.toPlaces places p.y

def message : Notice → String
  | motorsIgnored => "Ignoring motor change on an unclaimed board"
  | feedrateIgnored f => "Ignoring non-positive feedrate F" ++ Double.toText f
  | outsideBed target bed =>
    "Move target " ++ placeText 2 target ++ " is outside the bed (" ++ Double.toText bed.x ++ " x " ++
      Double.toText bed.y ++ ")"
  | moveRefused target refusal => s!"Move to {placeText 3 target} refused: {refusal.message}"
  | moveAborted target status => s!"Move to {placeText 3 target} aborted: {status.toText}"
  | homingFailed status => "Homing failed: " ++ status.toText
  | stopRequested line => s!"Stop requested, aborting before line {line}"
  | aborting line cause => s!"Aborting at line {line}: {cause.message}"
  | stepCalIgnored value => "Ignoring non-positive step calibration " ++ Double.toText value
  | stepCalKept current =>
    "M92 without a value leaves step calibration at " ++ Double.toText current
  | claimFailed cause => "Hardware init failed: " ++ cause.message
  | sourceRejected cause => "Rejecting program: " ++ cause.message

end Notice

end Engraver
