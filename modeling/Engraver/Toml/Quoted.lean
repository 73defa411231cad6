import Engraver.Toml.Scalar

/-!
# Quoted text

Between double quotes a backslash begins an escape; between single quotes every character stands for
itself. Three quotes enclose a text of several lines, whose first line ending does not count.
-/

namespace Engraver.Toml

/-- Something that reads from the front of a text, and refuses it or leaves the rest. -/
abbrev Reader := StateT (List Char) Option

namespace Reader

def next : Reader Char := do
  match ← get with
  | c :: cs =>
    set cs
    return c
  | [] => failure

/-- The next character, left where it is. -/
def peek : Reader (Option Char) := do
  return (← get).head?

def expect (c : Char) : Reader Unit := do
  if (← next) = c then return () else failure

/-- Pass a certain text if it comes next. -/
def accept (mark : List Char) : Reader Bool := do
  let cs ← get
  if mark.isPrefixOf cs then
    set (cs.drop mark.length)
    return true
  else return false

/-- The longest run of characters of a class. -/
def run (p : Char → Bool) : Reader (List Char) := do
  let (taken, rest) := (← get).span p
  set rest
  return taken

end Reader

open Reader

/-- Characters that stand for themselves; of the control characters only the tab does. -/
def isPlain (c : Char) : Bool :=
  c == '\t' || (0x20 ≤ c.toNat && c.toNat != 0x7F)

def isSpace (c : Char) : Bool :=
  c == ' ' || c == '\t'

/-- The character with a code of a fixed number of hexadecimal digits. -/
def readCode (count : Nat) : Reader Char := do
  let cs ← get
  let some ds := (cs.take count).mapM hexDigit? | failure
  let code := ds.foldl (fun n d => 16 * n + d) 0
  if ds.length = count ∧ code.isValidChar then
    set (cs.drop count)
    return Char.ofNat code
  else failure

/-- The character of an escape, after its backslash. -/
def readEscape : Reader Char := do
  match ← next with
  | 'b' => return Char.ofNat 0x08
  | 't' => return '\t'
  | 'n' => return '\n'
  | 'f' => return Char.ofNat 0x0C
  | 'r' => return '\r'
  | 'e' => return Char.ofNat 0x1B
  | '"' => return '"'
  | '\\' => return '\\'
  | 'x' => readCode 2
  | 'u' => readCode 4
  | 'U' => readCode 8
  | _ => failure

/-- The rest of a text on one line, up to its closing double quote. -/
def readEscaped : Nat → Reader (List Char)
  | 0 => failure
  | fuel + 1 => do
    match ← next with
    | '"' => return []
    | '\\' =>
      let c ← readEscape
      return c :: (← readEscaped fuel)
    | c => if isPlain c then return c :: (← readEscaped fuel) else failure

/-- The rest of a text on one line, up to its closing single quote. -/
def readLiteral : Reader (List Char) := do
  let cs ← run fun c => isPlain c && c != '\''
  expect '\''
  return cs

/-- Pass a line ending if one comes next. -/
def acceptNewline : Reader Bool := do
  if ← accept ['\n'] then return true else accept ['\r', '\n']

/-- Whether a backslash is followed by nothing but blanks on its line. -/
def endsLine (cs : List Char) : Bool :=
  match cs.dropWhile isSpace with
  | '\n' :: _ | '\r' :: '\n' :: _ => true
  | _ => false

/-- What follows blanks and line endings. -/
def afterBlankLines : List Char → List Char
  | '\r' :: '\n' :: cs => afterBlankLines cs
  | c :: cs => if isSpace c || c == '\n' then afterBlankLines cs else c :: cs
  | [] => []

/-- The rest of a text of several lines, whose line endings stay as they are. Up to two quotes may
stand before the closing three. -/
def readLong (quote : Char) (escapes : Bool) : Nat → Reader (List Char)
  | 0 => failure
  | fuel + 1 => do
    let cs ← get
    let quotes := ((cs.take 5).takeWhile (· = quote)).length
    if 3 ≤ quotes then
      set (cs.drop quotes)
      return List.replicate (quotes - 3) quote
    else
      match ← next with
      | '\n' => return '\n' :: (← readLong quote escapes fuel)
      | '\r' =>
        expect '\n'
        return '\r' :: '\n' :: (← readLong quote escapes fuel)
      | '\\' =>
        if !escapes then return '\\' :: (← readLong quote escapes fuel)
        else if endsLine (← get) then
          modify afterBlankLines
          readLong quote escapes fuel
        else
          let c ← readEscape
          return c :: (← readLong quote escapes fuel)
      | c => if isPlain c then return c :: (← readLong quote escapes fuel) else failure

/-- A text on one line, with its opening quote still to come. -/
def readShort : Reader String := do
  let fuel := (← get).length + 1
  if ← accept ['"'] then return .ofList (← readEscaped fuel)
  else if ← accept ['\''] then return .ofList (← readLiteral)
  else failure

/-- A text in quotes, with its opening quotes still to come. -/
def readText : Reader String := do
  let fuel := (← get).length + 1
  if ← accept ['"', '"', '"'] then
    let _ ← acceptNewline
    return .ofList (← readLong '"' true fuel)
  else if ← accept ['\'', '\'', '\''] then
    let _ ← acceptNewline
    return .ofList (← readLong '\'' false fuel)
  else readShort

end Engraver.Toml
