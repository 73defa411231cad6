import Engraver.Console.Filter
import Engraver.Gcode.Line
import Engraver.Text.Lines
import Engraver.Text.Quoted

/-!
# The log

The log shares a stream with the answer. Each of its messages begins a line of its own by which it is
told apart, but when the text of a message has line endings, what follows the first of them cannot be
told from the lines of the answer. Only messages with texts from outside have any.
-/

namespace Engraver.Console

/-- A message of the log that has a text from outside. -/
inductive Remark where
  /-- The program in a file has been read. -/
  | loaded (file : String) (commands : Nat)
  /-- The program in a file has been refused. -/
  | rejected (file : String) (cause : LineError)
  /-- The picture in a file is about to be read. -/
  | picture (file : String)

namespace Remark

/-- The part of the program that says it, by the name that rules know it by. -/
def part : Remark → String
  | loaded .. | rejected .. => "sketch_etch::job"
  | picture .. => "sketch_etch::raster"

def level : Remark → Level
  | loaded .. | picture .. => .info
  | rejected .. => .error

def message : Remark → String
  | loaded file commands => s!"Loaded {file} ({commands} commands)"
  | rejected file cause => s!"Rejected {file}: {cause.message}"
  | picture file => "Loading raster mask from " ++ file

end Remark

namespace Log

/-- A character of a message. Those that could steer a terminal stand as escapes. -/
def written (c : Char) : List Char :=
  match c with
  | '\x07' => ['\\', 'x', '0', '7']
  | '\x08' => ['\\', 'x', '0', '8']
  | '\x0c' => ['\\', 'x', '0', 'c']
  | '\x1b' => ['\\', 'x', '1', 'b']
  | '\x7f' => ['\\', 'x', '7', 'f']
  | c => if 0x80 ≤ c.toNat && c.toNat ≤ 0x9F then Text.codeEscape c else [c]

/-- The lines of a message after its first. -/
def leftover (message : String) : List String :=
  ((Text.lines (message.toList.flatMap written ++ ['\n'])).drop 1).map .ofList

/-- The lines that remarks leave among those of the answer. -/
def leftovers (filter : Filter) (remarks : List Remark) : List String :=
  (remarks.filter fun remark => filter.shows remark.part remark.level).flatMap fun remark =>
    leftover remark.message

end Log

end Engraver.Console
