/-!
# Blank characters, trimming and words

A character is blank when it has the White_Space property. Texts are lists of characters.
-/

namespace Engraver.Text

/-- The White_Space property. -/
def isBlank (c : Char) : Bool :=
  let n := c.toNat
  (0x09 ≤ n && n ≤ 0x0D) || n == 0x20 || n == 0x85 || n == 0xA0 || n == 0x1680 ||
    (0x2000 ≤ n && n ≤ 0x200A) || n == 0x2028 || n == 0x2029 || n == 0x202F || n == 0x205F ||
    n == 0x3000

def trimStart (cs : List Char) : List Char :=
  cs.dropWhile isBlank

def trimEnd (cs : List Char) : List Char :=
  (cs.reverse.dropWhile isBlank).reverse

def trim (cs : List Char) : List Char :=
  trimEnd (trimStart cs)

/-- A run, unless it is empty. -/
def flush (run : List Char) : List (List Char) :=
  if run.isEmpty then [] else [run]

/-- The runs of a text whose first run has begun with `run`. -/
def runsFrom (gap : Char → Bool) (run : List Char) : List Char → List (List Char)
  | [] => flush run
  | c :: cs => if gap c then flush run ++ runsFrom gap [] cs else runsFrom gap (run ++ [c]) cs

/-- The longest runs of characters that are no gaps, in order. -/
def runs (gap : Char → Bool) (cs : List Char) : List (List Char) :=
  runsFrom gap [] cs

/-- The longest runs of characters that are not blank, in order. -/
def words (cs : List Char) : List (List Char) :=
  runs isBlank cs

/-- What stands before the first `mark`, or the whole text. -/
def before (mark : Char) (cs : List Char) : List Char :=
  cs.takeWhile (· != mark)

/-- ASCII letters in upper case, all else as it is. -/
def upper (cs : List Char) : List Char :=
  cs.map Char.toUpper

end Engraver.Text
