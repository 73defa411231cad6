import Engraver.Number.Layout

/-!
# Commands

What one line of a program asks for, and the text that asks for it.
-/

namespace Engraver

/-- How the coordinates of a move are meant. -/
inductive Positioning where
  | absolute
  | relative
deriving Repr, DecidableEq

/-- Whether a move may cut. -/
inductive MoveKind where
  /-- The laser stays off for the whole move. -/
  | rapid
  /-- The laser cuts if it is armed. -/
  | controlled
deriving Repr, DecidableEq

/-- What a stop command ends. -/
inductive StopKind where
  /-- Everything: the machine shuts down and the session is over. -/
  | final
  /-- Nothing: motors and laser go off, and the program goes on. -/
  | sleep
deriving Repr, DecidableEq

/-- One command. Coordinates are in millimetres, feedrates in millimetres per minute. -/
inductive Command where
  | move (kind : MoveKind) (x y feedrate : Option Float)
  | home
  | setMode (mode : Positioning)
  | setPosition (x y : Float)
  | stop (kind : StopKind)
  | laserOn (power : Option Float)
  | laserOff
  | enableMotors (on : Bool)
  | setStepCal (value : Option Float)
  | queryPosition
  | queryVersion
  | queryEndstops

namespace Command

/-- Queries answer with a value and leave the machine alone. -/
def isQuery : Command → Bool
  | queryPosition | queryVersion | queryEndstops => true
  | _ => false

/-- A parameter as written: nothing for an absent value. -/
def parameterText (letter : Char) : Option Float → String
  | none => ""
  | some value => " " ++ letter.toString ++ Double.toText value

def toText : Command → String
  | move .rapid x y f =>
    "G0" ++ parameterText 'X' x ++ parameterText 'Y' y ++ parameterText 'F' f
  | move .controlled x y f =>
    "G1" ++ parameterText 'X' x ++ parameterText 'Y' y ++ parameterText 'F' f
  | home => "G28"
  | setMode .absolute => "G90"
  | setMode .relative => "G91"
  | setPosition x y => "G92" ++ parameterText 'X' (some x) ++ parameterText 'Y' (some y)
  | stop .final => "M0"
  | stop .sleep => "M1"
  | laserOn power => "M3" ++ parameterText 'S' power
  | laserOff => "M5"
  | enableMotors true => "M17"
  | enableMotors false => "M18"
  | setStepCal value => "M92" ++ parameterText 'X' value
  | queryPosition => "M114"
  | queryVersion => "M115"
  | queryEndstops => "M119"

end Command

end Engraver
