import Engraver.Hardware.Status
import Engraver.Motion.Plan
import Engraver.Number.Word
import Engraver.Settings.Basic

/-!
# The simulated board

Two belts, a laser, four endstops and the safety feet. One driver at a time may hold the board's
claim. The board keeps a record of every plan that it was given.
-/

namespace Engraver

/-- A plan as the board saw it: how many of its steps were taken, and the code it answered. -/
structure Record where
  plan : Plan
  executed : Nat
  status : Int
deriving Repr, DecidableEq

/-- The microseconds of the steps that were taken. -/
def Record.elapsed (r : Record) : Nat :=
  ((r.plan.steps.take r.executed).map Step.duration).foldr (· + ·) 0

/-- A switch that is to trip in the middle of the next plan. -/
structure Trip where
  /-- The steps before it trips. -/
  steps : Nat
  switches : Nat
deriving Repr, DecidableEq

/-- The board; `injected` codes are answered instead of the motions to come. -/
structure Board where
  settings : BoardSettings
  claimed : Bool := false
  motors : Bool := false
  laser : Bool := false
  homed : Bool := false
  a : Int := 0
  b : Int := 0
  feet : Bool := false
  initFailure : Option String := none
  injected : List Int := []
  trip : Option Trip := none
  records : List Record := []

namespace Board

/-- Where the head is, by the step counters. -/
def head (board : Board) : Point Float :=
  let twice := 2.0 * board.settings.stepsPerMm
  ⟨Float.ofInt (board.a + board.b) / twice, Float.ofInt (board.a - board.b) / twice⟩

/-- The pressed switches: the head may stand one step past an edge before its switch trips. -/
def switches (board : Board) : Endstops :=
  let head := board.head
  let tolerance := 1.0 / board.settings.stepsPerMm
  { xmin := head.x < -tolerance
    xmax := board.settings.bedXmax + tolerance < head.x
    ymin := head.y < -tolerance
    ymax := board.settings.bedYmax + tolerance < head.y
    feet := board.feet }

/-! ## Running plans -/

def take (board : Board) (step : Step) : Board :=
  { board with a := board.a + step.a, b := board.b + step.b, laser := step.laser }

/-- Steps taken one after the other. The trip is looked at before each step; after it its time is
counted, and then the switches are looked at. The answer is how many steps were taken in all, and the
code: there is none where the counter of the time overflows, which is a panic. -/
def advance (trip : Option Trip) (executed elapsed : Nat) (board : Board) :
    List Step → Nat × Option Int × Board
  | [] => (executed, some 0, board)
  | step :: steps =>
    match trip.filter (·.steps = executed) with
    | some t => (executed, some t.switches, board)
    | none =>
      let board := board.take step
      match Word.count? 64 (elapsed + step.duration) with
      | none => (executed + 1, none, board)
      | some elapsed =>
        if board.switches.isClear then advance trip (executed + 1) elapsed board steps
        else (executed + 1, some board.switches.bits, board)

/-- The code that keeps a plan from starting, if one does. An injected code is used up. -/
def gate (board : Board) : Option Int × Board :=
  if !board.claimed then (some Status.hardwareFault, board)
  else
    match board.injected with
    | code :: codes => (some code, { board with injected := codes })
    | [] =>
      if board.settings.requireHoming && !board.homed then (some Status.notHomed, board)
      else if board.feet then (some Status.feetLifted, board)
      else (none, board)

/-- The board after a plan: the laser is off, and the plan is on record. -/
def finish (board : Board) (plan : Plan) (executed : Nat) (status : Int) : Option Int × Board :=
  (some status, { board with laser := false, records := board.records ++ [⟨plan, executed, status⟩] })

/-- Run a plan. There is no code where the board panics, and it is left as it was at the last step. -/
def run (board : Board) (plan : Plan) : Option Int × Board :=
  match board.gate with
  | (some code, board) => board.finish plan 0 code
  | (none, board) =>
    match advance board.trip 0 0 { board with trip := none } plan.steps with
    | (executed, some code, after) => after.finish plan executed code
    | (_, none, after) => (none, after)

def seek (board : Board) : Int × Board :=
  match board.injected with
  | code :: codes => (code, { board with injected := codes })
  | [] =>
    if board.feet then (Status.feetLifted, board)
    else (0, { board with a := 0, b := 0, homed := true })

/-! ## Claims and switches -/

/-- The board claimed by nobody: motors and laser off, and its place forgotten. -/
def freed (board : Board) : Board :=
  { board with motors := false, laser := false, homed := false, claimed := false }

/-- The board with its motors switched; without motors its place is lost. -/
def setMotors (board : Board) (on : Bool) : Board :=
  { board with motors := on, homed := board.homed && on }

/-- A claim by a driver that has none yet. An awaited failure is used up. -/
def claim (board : Board) : Except HardwareError Unit × Board :=
  match board.initFailure with
  | some reason => (.error (.initFailed reason), { board with initFailure := none })
  | none =>
    if board.claimed then (.error .busy, board)
    else (.ok (), { board with claimed := true, motors := false, laser := false })

end Board

end Engraver
