import Engraver.Gcode.Command

/-!
# The vocabulary

Every command name with the parameter letters it takes and the command it builds from them. Some
further names are known, but nothing is done for them.
-/

namespace Engraver

/-- The values of one line's parameters, in the order in which they were written. -/
abbrev Parameters := List (Char × Float)

namespace Parameters

def get? (params : Parameters) (letter : Char) : Option Float :=
  params.lookup letter

def has (params : Parameters) (letter : Char) : Bool :=
  (params.get? letter).isSome

end Parameters

/-- A command name, the letters it takes, and what it builds from their values. -/
structure Entry where
  name : String
  letters : List Char
  build : Parameters → Command

namespace Vocabulary

def straightMove (kind : MoveKind) (params : Parameters) : Command :=
  .move kind (params.get? 'X') (params.get? 'Y') (params.get? 'F')

/-- The commands that are carried out. Coordinates left out of a new position are zero; one step
calibration serves both belts, and X is preferred to Y. -/
def entries : List Entry := [
  ⟨"G0", ['X', 'Y', 'F'], straightMove .rapid⟩,
  ⟨"G1", ['X', 'Y', 'F'], straightMove .controlled⟩,
  ⟨"G28", [], fun _ => .home⟩,
  ⟨"G90", [], fun _ => .setMode .absolute⟩,
  ⟨"G91", [], fun _ => .setMode .relative⟩,
  ⟨"G92", ['X', 'Y'],
    fun params => .setPosition ((params.get? 'X').getD 0) ((params.get? 'Y').getD 0)⟩,
  ⟨"M0", [], fun _ => .stop .final⟩,
  ⟨"M1", [], fun _ => .stop .sleep⟩,
  ⟨"M3", ['S'], fun params => .laserOn (params.get? 'S')⟩,
  ⟨"M5", [], fun _ => .laserOff⟩,
  ⟨"M17", [], fun _ => .enableMotors true⟩,
  ⟨"M18", [], fun _ => .enableMotors false⟩,
  ⟨"M92", ['X', 'Y'], fun params => .setStepCal ((params.get? 'X').or (params.get? 'Y'))⟩,
  ⟨"M114", [], fun _ => .queryPosition⟩,
  ⟨"M115", [], fun _ => .queryVersion⟩,
  ⟨"M119", [], fun _ => .queryEndstops⟩]

/-- Known names (units, pins, tones, fans) for which nothing is done. -/
def unimplemented : List String :=
  ["G20", "G21", "M42", "M72", "M106", "M107"]

def lookup (name : String) : Option Entry :=
  entries.find? (·.name == name)

end Vocabulary

end Engraver
