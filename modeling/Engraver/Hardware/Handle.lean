import Engraver.Hardware.Board
import Engraver.Hardware.Driver

/-!
# Driver handles

A handle is a driver for the simulated board. Any number of them may be made, and one at a time holds
the claim.
-/

namespace Engraver

/-- A driver handle wired to the board. -/
structure Handle where
  board : Board
  /-- This handle holds the board's claim. -/
  claimed : Bool := false

namespace Handle

/-- Claiming twice changes nothing. -/
def claim (h : Handle) : Except HardwareError Unit × Handle :=
  if h.claimed then (.ok (), h)
  else
    match h.board.claim with
    | (.ok (), board) => (.ok (), ⟨board, true⟩)
    | (.error e, board) => (.error e, ⟨board, false⟩)

/-- Give up the claim, if this handle holds it. -/
def release (h : Handle) : Handle :=
  if h.claimed then ⟨h.board.freed, false⟩ else h

/-- Run a plan on the board: the code, or none where the board panics. -/
def execute (h : Handle) (plan : Plan) : Option Int × Handle :=
  if h.claimed then
    let (code, board) := h.board.run plan
    (code, { h with board })
  else (some Status.hardwareFault, h)

end Handle

/-- A handle without the claim moves nothing and switches nothing. No machine makes a plan that the
board panics over, so none ever gets the code that stands for a panic. -/
instance : Driver Handle where
  claim := Handle.claim
  release := Handle.release
  setMotors on h := if h.claimed then (true, { h with board := h.board.setMotors on }) else (false, h)
  laserOff h := if h.claimed then { h with board := { h.board with laser := false } } else h
  readSwitches h := (h.board.switches, h)
  home h :=
    if h.claimed then
      let (code, board) := h.board.seek
      (code, { h with board })
    else (Status.hardwareFault, h)
  execute plan h :=
    let (code, h) := h.execute plan
    (code.getD Status.hardwareFault, h)

end Engraver
