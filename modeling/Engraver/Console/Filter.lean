import Engraver.Text.Blank

/-!
# Filters of the log

A filter is a list of rules with commas between them. A rule is a level for every part of the program,
or the beginning of the names of some parts, or both with `=` between them; brackets before the level
choose among what the parts say. Of the rules for a part the most specific decides how much of it is
shown. What cannot be read as a rule is passed over.
-/

namespace Engraver.Console

/-! ## Levels -/

/-- How much is shown, from nothing to everything. What is said has a level too, which is never
`off`. -/
inductive Level where
  | off
  | error
  | warn
  | info
  | debug
  | trace
deriving Repr, DecidableEq

namespace Level

def rank : Level → Nat
  | off => 0
  | error => 1
  | warn => 2
  | info => 3
  | debug => 4
  | trace => 5

/-- The level of a rank, which may have a plus sign and zeros before it. -/
def ofDigits? (word : List Char) : Option Level :=
  let digits := if word.head? = some '+' then word.drop 1 else word
  match digits, digits.dropWhile (· == '0') with
  | _ :: _, [] => some off
  | _, ['1'] => some error
  | _, ['2'] => some warn
  | _, ['3'] => some info
  | _, ['4'] => some debug
  | _, ['5'] => some trace
  | _, _ => none

/-- The level of a name, in letters of either case, or of a rank. -/
def read? (word : List Char) : Option Level :=
  match String.ofList (word.map Char.toLower) with
  | "off" => some off
  | "error" => some error
  | "warn" => some warn
  | "info" => some info
  | "debug" => some debug
  | "trace" => some trace
  | _ => ofDigits? word

end Level

/-! ## Rules -/

/-- Which of the things that a part says a rule is for. -/
inductive Scope where
  /-- All of them. -/
  | all
  /-- Those that have a message. All of them have one, but a rule that says so is more specific. -/
  | messages
  /-- Those with another field, or said within a span. There are none. -/
  | nothing
deriving Repr, DecidableEq

structure Rule where
  /-- The beginning of the names of its parts. -/
  start : List Char := []
  scope : Scope := .all
  level : Level := .trace
deriving Repr, DecidableEq

/-- Why a text is no rule. -/
inductive RuleFault where
  | malformed
  | badLevel
deriving Repr, DecidableEq

def RuleFault.message : RuleFault → String
  | malformed => "invalid filter directive"
  | badLevel =>
    "error parsing level filter: expected one of \"off\", \"error\", \"warn\", \"info\", " ++
      "\"debug\", \"trace\", or a number 0-5"

namespace Rule

/-- A rule as it is written, in three pieces. -/
structure Layout where
  start : List Char
  scope : Scope := .all
  /-- What follows `=`. -/
  level : Option (List Char) := none

/-- What follows the brackets. -/
def readEnd? (layout : Layout) : List Char → Option Layout
  | '=' :: word => some { layout with level := some word }
  | cs => if cs.all Text.isBlank then some layout else none

/-- The inside of the brackets: the name of a span, and a field in braces. -/
def readBrackets? (start cs : List Char) : Option Layout :=
  let (span, tail) := cs.span fun c => c != ']' && c != '\x7b'
  match tail with
  | ']' :: tail => readEnd? { start, scope := .nothing } tail
  | _ :: tail =>
    let (field, tail) := tail.span (· != '\x7d')
    let scope := if span.isEmpty && field == "message".toList then Scope.messages else .nothing
    match tail with
    | _ :: ']' :: tail => if field.isEmpty then none else readEnd? { start, scope } tail
    | _ => none
  | [] => none

def opensName (c : Char) : Bool :=
  c.isAlphanum || c == '-' || c == ':' || c == '_' || c.toNat > 0x7F

def readLayout? (cs : List Char) : Option Layout :=
  let (start, tail) := cs.span fun c => c != '=' && c != '['
  if !start.isEmpty && !(start.head?.any opensName) then none
  else
    match tail with
    | [] => if start.isEmpty then none else some { start }
    | '[' :: tail => readBrackets? start tail
    | _ :: word => if start.isEmpty then none else some { start, level := some word }

/-- The rule of three pieces. Without a level everything is shown, unless a level stands alone. -/
def ofLayout (layout : Layout) : Except RuleFault Rule :=
  let rule : Rule := { start := layout.start, scope := layout.scope }
  match layout.level with
  | none =>
    match layout.scope, Level.read? layout.start with
    | .all, some level => .ok { level }
    | _, _ => .ok rule
  | some [] => .ok rule
  | some word =>
    match Level.read? word with
    | some level => .ok { rule with level }
    | none => .error .badLevel

/-- A rule after blanks, which is for nothing, and whose level is never understood. -/
def ofIndented (layout : Layout) : Except RuleFault Rule :=
  if layout.level.isSome then .error .badLevel else .ok { scope := .nothing }

def read (cs : List Char) : Except RuleFault Rule :=
  match readLayout? (Text.trimStart cs) with
  | none => .error .malformed
  | some layout => if cs.head?.any Text.isBlank then ofIndented layout else ofLayout layout

def covers (rule : Rule) (part : String) : Bool :=
  rule.scope != .nothing && rule.start.isPrefixOf part.toList

/-- How specific the rule is: first by the names of its parts, then by its scope. -/
def weight (rule : Rule) : Nat :=
  2 * rule.start.length + if rule.scope = .all then 0 else 1

end Rule

/-! ## Filters -/

/-- The rules of a filter, and what is said of the texts that are none. -/
structure Filter where
  rules : List Rule
  complaints : List String := []

namespace Filter

/-- What is said of a text that is no rule. -/
def complaint? (piece : List Char) : Option String :=
  match Rule.read piece with
  | .ok _ => none
  | .error fault => some ("ignoring `" ++ .ofList piece ++ "`: " ++ fault.message)

/-- Read a filter. Without any rule errors are shown. -/
def read (text : String) : Filter :=
  let pieces := Text.runs (· == ',') text.toList
  let rules := pieces.filterMap fun piece => (Rule.read piece).toOption
  { rules := if rules.isEmpty then [{ level := .error }] else rules
    complaints := pieces.filterMap complaint? }

def everything : Filter :=
  { rules := [{}] }

/-- How much is shown of a part: what the most specific of its rules says, and among equals the last;
nothing if there is no rule. -/
def level (filter : Filter) (part : String) : Level :=
  (filter.rules.foldl (fun best rule =>
    if rule.covers part && best.weight ≤ rule.weight then rule else best) { level := .off }).level

def shows (filter : Filter) (part : String) (level : Level) : Bool :=
  level.rank ≤ (filter.level part).rank

end Filter

end Engraver.Console
