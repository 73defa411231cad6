import Engraver.Hardware.Status
import Engraver.Motion.Plan

/-!
# The hardware contract

What the machine asks of its hardware. A driver is any state with these operations, so what is said
of every driver is said of hardware that answers in any way at all.
-/

namespace Engraver

/-- Hardware that can be claimed and moved; every operation gives the state after it. -/
class Driver (D : Type) where
  /-- Claim the hardware for this driver. -/
  claim : D → Except HardwareError Unit × D
  /-- Motors and laser off, and the claim given up. -/
  release : D → D
  /-- Switch the motors; the answer is whether the hardware heeded it. -/
  setMotors : Bool → D → Bool × D
  laserOff : D → D
  readSwitches : D → Endstops × D
  /-- Seek the reference switches; the answer is a status code. -/
  home : D → Int × D
  /-- Run a plan; the answer is a status code. -/
  execute : Plan → D → Int × D

end Engraver
