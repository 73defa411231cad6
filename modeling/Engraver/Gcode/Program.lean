import Engraver.Gcode.Line
import Engraver.Text.Lines

/-!
# Programs

A source is read line by line. A program holds every command of a source with the number of its
line, and one bad line refuses the whole source.
-/

namespace Engraver

/-- A command and the number of its line, counted from 1. -/
structure ProgramLine where
  line : Nat
  command : Command

/-- Commands to be run in order. -/
structure Program where
  lines : List ProgramLine

namespace Program

/-- What a line contributes: its command, its error, or nothing. -/
def item? (number : Nat) (raw : String) : Option (Except LineError ProgramLine) :=
  match Line.parse number raw with
  | .ok none => none
  | .ok (some command) => some (.ok ⟨number, command⟩)
  | .error e => some (.error e)

/-- The items of numbered lines, the first of which has the given number. -/
def itemsFrom (number : Nat) : List (List Char) → List (Except LineError ProgramLine)
  | [] => []
  | line :: lines => (item? number (.ofList line)).toList ++ itemsFrom (number + 1) lines

/-- Every command and every error of a source, in order; reading goes on after an error. -/
def items (source : String) : List (Except LineError ProgramLine) :=
  itemsFrom 1 (Text.lines source.toList)

/-- All values of a list of results, or its first error. -/
def collect {ε α : Type} : List (Except ε α) → Except ε (List α)
  | [] => .ok []
  | .error e :: _ => .error e
  | .ok a :: rest => (collect rest).map (a :: ·)

/-- The program of a source; its first bad line refuses all of it. -/
def parse (source : String) : Except LineError Program :=
  (collect (items source)).map .mk

/-- Commands numbered from `number` on. -/
def number (number : Nat) : List Command → List ProgramLine
  | [] => []
  | command :: commands => ⟨number, command⟩ :: Program.number (number + 1) commands

/-- A program that comes from no source; its commands are numbered from 1. -/
def ofCommands (commands : List Command) : Program :=
  ⟨number 1 commands⟩

def size (p : Program) : Nat := p.lines.length

end Program

end Engraver
