/-!
# Values shown by their constructors

A constructor is shown with its argument in parentheses, or with its named fields in braces.
-/

namespace Engraver.Text

/-- A constructor with one argument. -/
def applied (name argument : String) : String :=
  name ++ "(" ++ argument ++ ")"

/-- A constructor with named fields. -/
def record (name : String) (fields : List (String × String)) : String :=
  name ++ " \x7b " ++ ", ".intercalate (fields.map fun f => f.1 ++ ": " ++ f.2) ++ " \x7d"

/-- A letter in single quotes. -/
def letter (c : Char) : String :=
  "'" ++ c.toString ++ "'"

end Engraver.Text
