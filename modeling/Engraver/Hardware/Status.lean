import Engraver.Hardware.Endstops

/-!
# Status codes

The hardware answers every motion with a code: 0 when all of it ran, the pressed switches when it
stopped early, a negative number when it did not run or broke down.
-/

namespace Engraver

/-- What a status code means. -/
inductive Status where
  | completed
  /-- Motion stopped early; the code may hold bits that are no switch. -/
  | triggered (code : Int) (switches : Endstops)
  | fault (code : Int)
deriving Repr, DecidableEq

namespace Status

/-- The code of a machine that does not know where it is. -/
def notHomed : Int := -1

/-- The code of hardware that does not work. -/
def hardwareFault : Int := -2

/-- The code of motion stopped by the safety feet. -/
def feetLifted : Int := ({ feet := true } : Endstops).bits

def ofCode (code : Int) : Status :=
  if code = 0 then .completed
  else if 0 < code then .triggered code (.ofBits code.toNat)
  else .fault code

def code : Status → Int
  | completed => 0
  | triggered code _ => code
  | fault code => code

/-- Whether all of the motion ran. -/
def isCompleted : Status → Bool
  | completed => true
  | _ => false

def toText : Status → String
  | completed => "completed"
  | triggered code switches =>
    if code = switches.bits then "switch triggered " ++ switches.toText
    else s!"switch triggered {switches.toText} (unknown status bits in {code})"
  | fault code => if code = notHomed then "machine not homed" else s!"hardware fault {code}"

end Status

/-- A motion that the hardware did not complete. -/
structure MotionFault where
  status : Status
deriving Repr, DecidableEq

def MotionFault.message (f : MotionFault) : String :=
  s!"Motion fault (status {f.status.code}): {f.status.toText}"

inductive HardwareError where
  | initFailed (reason : String)
  | busy
deriving Repr, DecidableEq

def HardwareError.message : HardwareError → String
  | initFailed reason => "Hardware initialization failed: " ++ reason
  | busy => "Driver is already claimed by another session"

end Engraver
