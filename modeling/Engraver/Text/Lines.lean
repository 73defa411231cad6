/-!
# Lines

A line ends at a line feed, and a carriage return just before the line feed is part of the ending. A
last line without a line feed counts when it is not empty.
-/

namespace Engraver.Text

/-- The line without a carriage return at its end. -/
def dropReturn (line : List Char) : List Char :=
  if line.getLast? = some '\r' then line.dropLast else line

/-- The lines of a text whose first line has begun with `line`. -/
def linesFrom (line : List Char) : List Char → List (List Char)
  | [] => if line.isEmpty then [] else [line]
  | c :: cs => if c = '\n' then dropReturn line :: linesFrom [] cs else linesFrom (line ++ [c]) cs

def lines (cs : List Char) : List (List Char) :=
  linesFrom [] cs

end Engraver.Text
