import Engraver.Gcode.Vocabulary
import Engraver.Text.Blank

/-!
# Lines of a program

A line is first reduced to its command text: a comment from `;` on, a leading `N` with digits and a
checksum from `*` on are dropped, and what is left is trimmed and set in capitals. Its first word
names a command, and every further word is a letter with a finite number.
-/

namespace Engraver

inductive LineFault where
  | unknownCommand (name : String)
  | unimplemented (name : String)
  | unsupportedParameter (command : String) (letter : Char)
  | invalidValue (letter : Char) (value : String)
  | duplicateParameter (letter : Char)
  | malformedParameter (word : String)
deriving Repr, DecidableEq

def LineFault.message : LineFault → String
  | unknownCommand name => s!"unknown command '{name}'"
  | unimplemented name => s!"command '{name}' is not implemented"
  | unsupportedParameter command letter =>
    s!"command '{command}' does not accept parameter '{letter}'"
  | invalidValue letter value => s!"parameter '{letter}' has non-numeric value '{value}'"
  | duplicateParameter letter => s!"parameter '{letter}' given more than once"
  | malformedParameter word => s!"malformed parameter '{word}'"

/-- A refused line: its number, its text as written, and the fault. -/
structure LineError where
  line : Nat
  text : String
  fault : LineFault
deriving Repr, DecidableEq

def LineError.message (e : LineError) : String :=
  s!"G-code parse error at line {e.line}: {e.fault.message}: {e.text}"

namespace Line

/-! ## Reducing a line to its command text -/

/-- Whether a word is a line number: `N` or `n` and at least one ASCII digit, nothing else. -/
def isLineNumber : List Char → Bool
  | c :: digits => (c == 'N' || c == 'n') && !digits.isEmpty && digits.all Char.isDigit
  | [] => false

/-- The text without a line number at its start. -/
def dropLineNumber (cs : List Char) : List Char :=
  let (word, rest) := cs.span (!Text.isBlank ·)
  if isLineNumber word then rest else cs

/-- The command text of a line. -/
def commandChars (raw : List Char) : List Char :=
  let uncommented := Text.before ';' raw
  let unnumbered := dropLineNumber (Text.trimStart uncommented)
  Text.upper (Text.trim (Text.before '*' unnumbered))

def normalize (raw : String) : String :=
  .ofList (commandChars raw.toList)

/-! ## Reading the command -/

def finiteValue? (cs : List Char) : Option Float :=
  (Double.read? cs).filter Float.isFinite

/-- One parameter word read after the parameters `seen`. -/
def readParameter (entry : Entry) (seen : Parameters) (word : List Char) :
    Except LineFault (Char × Float) :=
  match word with
  | [] => .error (.malformedParameter "")
  | letter :: digits =>
    if !letter.isAlpha then .error (.malformedParameter (.ofList word))
    else if !entry.letters.contains letter then
      .error (.unsupportedParameter entry.name letter)
    else
      match finiteValue? digits with
      | none => .error (.invalidValue letter (.ofList digits))
      | some value =>
        if seen.has letter then .error (.duplicateParameter letter) else .ok (letter, value)

/-- Parameter words read after the parameters `seen`; the leftmost fault wins. -/
def readParameters (entry : Entry) (seen : Parameters) :
    List (List Char) → Except LineFault Parameters
  | [] => .ok seen
  | word :: words =>
    match readParameter entry seen word with
    | .error fault => .error fault
    | .ok param => readParameters entry (seen ++ [param]) words

/-- The command that a list of words spells; none for no words. -/
def readWords : List (List Char) → Except LineFault (Option Command)
  | [] => .ok none
  | name :: words =>
    let name := String.ofList name
    match Vocabulary.lookup name with
    | none =>
      if Vocabulary.unimplemented.contains name then .error (.unimplemented name)
      else .error (.unknownCommand name)
    | some entry => (readParameters entry [] words).map fun params => some (entry.build params)

/-- The command on a line; none when the line carries no command. -/
def parse (number : Nat) (raw : String) : Except LineError (Option Command) :=
  (readWords (Text.words (commandChars raw.toList))).mapError fun fault => ⟨number, raw, fault⟩

end Line

end Engraver
