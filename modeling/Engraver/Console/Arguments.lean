import Engraver.Motion.Belts
import Engraver.Number.Numeral

/-!
# The command line

Options may stand before the name of a task and after it, long ones by name and short ones by letter.
Words are looked at from left to right, and the first one that makes no sense ends the reading.
-/

namespace Engraver.Console

inductive Task where
  /-- Run a program on the simulated board. -/
  | run (file : String)
  /-- Read a program without running it. -/
  | check (file : String)
  /-- Show the plan of a move from the origin. -/
  | plan (target : Point Float) (cut steps : Bool)

/-- A command line: the settings file, if one is named, and the task. -/
structure Invocation where
  settings : Option String
  /-- More is logged than the settings say. -/
  verbose : Bool
  task : Task

/-- Why there is nothing to be done. -/
inductive Ending where
  | help
  | version
  /-- The words make no sense. -/
  | refused
deriving Repr, DecidableEq

/-! ## Options -/

/-- What an option wants after it. -/
inductive Operand where
  | nothing
  /-- A file name, which is not empty and does not begin with a hyphen. -/
  | path
  /-- A number, which may begin with a hyphen. -/
  | number
deriving Repr, DecidableEq

def Operand.accepts : Operand → String → Bool
  | nothing, _ => true
  | path, text => !text.isEmpty
  | number, text => (Double.read? text.toList).isSome

structure Flag where
  name : String
  letter : Option Char := none
  operand : Operand := .nothing
  /-- It may be given more than once. -/
  repeats : Bool := false
deriving Repr, DecidableEq

inductive TaskName where
  | run
  | check
  | plan
  | help
deriving Repr, DecidableEq

def taskName? : String → Option TaskName
  | "run" => some .run
  | "check" => some .check
  | "plan" => some .plan
  | "help" => some .help
  | _ => none

/-- Options that may stand anywhere. -/
def commonFlags : List Flag :=
  [{ name := "config", letter := some 'c', operand := .path },
    { name := "verbose", letter := some 'v', repeats := true },
    { name := "help", letter := some 'h' }]

/-- The options before a task, or those of a task. -/
def flagsOf : Option TaskName → List Flag
  | none => { name := "version", letter := some 'V' } :: commonFlags
  | some .plan =>
    [{ name := "x", operand := .number }, { name := "y", operand := .number }, { name := "cut" },
      { name := "steps" }] ++ commonFlags
  | some _ => commonFlags

/-! ## Words -/

/-- Options given so far, each with its operand. -/
abbrev Given := List (String × String)

/-- A command line read up to some word. -/
structure Draft where
  task : Option TaskName := none
  /-- Options before the task. -/
  outer : Given := []
  /-- Options after it, or so far if there is none yet. -/
  given : Given := []
  /-- An option that waits for its operand. -/
  pending : Option Flag := none
  /-- No more options: every word stands for itself. -/
  literal : Bool := false
  /-- Words that are no options. -/
  words : List String := []

namespace Draft

/-- One more option. Help and version end the reading at once. -/
def give (d : Draft) (flag : Flag) (operand : String) : Except Ending Draft :=
  if !flag.repeats && (d.given.lookup flag.name).isSome then .error .refused
  else if !flag.operand.accepts operand then .error .refused
  else if flag.name = "help" then .error .help
  else if flag.name = "version" then .error .version
  else .ok { d with given := d.given ++ [(flag.name, operand)], pending := none }

/-- One more option whose operand, if it wants one, is the next word. -/
def await (d : Draft) (flag : Flag) : Except Ending Draft :=
  if flag.operand = .nothing then d.give flag "" else .ok { d with pending := some flag }

/-- An option by its name, perhaps with `=` and its operand. -/
def readLong (d : Draft) (body : List Char) : Except Ending Draft :=
  let (name, tail) := body.span (· != '=')
  match (flagsOf d.task).find? (·.name == .ofList name), tail with
  | none, _ => .error .refused
  | some flag, [] => d.await flag
  | some flag, _ :: operand =>
    if flag.operand = .nothing then .error .refused else d.give flag (.ofList operand)

/-- Options by their letters. What follows a letter whose option wants an operand is that operand. -/
def readShort (d : Draft) : List Char → Except Ending Draft
  | [] => .ok d
  | letter :: tail =>
    match (flagsOf d.task).find? (·.letter == some letter), tail with
    | none, _ => .error .refused
    | some flag, [] => d.await flag
    | some flag, '=' :: operand =>
      if flag.operand = .nothing then .error .refused else d.give flag (.ofList operand)
    | some flag, tail@(_ :: _) =>
      if flag.operand = .nothing then
        match d.give flag "" with
        | .ok d => d.readShort tail
        | .error e => .error e
      else d.give flag (.ofList tail)

/-- A word that is no option: the name of the task, or its file. -/
def readPlain (d : Draft) (word : String) : Except Ending Draft :=
  match d.task with
  | none =>
    if d.literal then .error .refused
    else
      match taskName? word with
      | none => .error .refused
      | some task =>
        .ok { task := some task, outer := d.given, literal := task = .help }
  | some task =>
    if task = .plan ∨ !d.words.isEmpty ∨ word.isEmpty then .error .refused
    else .ok { d with words := [word] }

def read (d : Draft) (word : String) : Except Ending Draft :=
  match d.pending, word.toList with
  | some flag, cs =>
    if flag.operand = .number then d.give flag word
    else if cs.head? = some '-' ∧ cs ≠ ['-'] then .error .refused
    else d.give flag word
  | none, cs =>
    if d.literal then d.readPlain word
    else
      match cs with
      | ['-', '-'] => .ok { d with literal := true }
      | '-' :: '-' :: body => d.readLong body
      | '-' :: c :: cs => d.readShort (c :: cs)
      | _ => d.readPlain word

def number? (d : Draft) (name : String) : Option Float :=
  (d.given.lookup name).bind fun text => Double.read? text.toList

/-- The task, if nothing that it needs is missing. -/
def task? (d : Draft) : Except Ending Task :=
  match d.task, d.words with
  | some .run, [file] => .ok (.run file)
  | some .check, [file] => .ok (.check file)
  | some .plan, [] =>
    match d.number? "x", d.number? "y" with
    | some x, some y =>
      .ok (.plan ⟨x, y⟩ (d.given.lookup "cut").isSome (d.given.lookup "steps").isSome)
    | _, _ => .error .refused
  | some .help, [] => .error .help
  | some .help, [name] => .error (if (taskName? name).isSome then .help else .refused)
  | _, _ => .error .refused

/-- The whole command line. The settings file named last counts. -/
def finish (d : Draft) : Except Ending Invocation := do
  if d.pending.isSome then throw .refused
  return {
    settings := (d.given.lookup "config").or (d.outer.lookup "config")
    verbose := ((d.given.lookup "verbose").or (d.outer.lookup "verbose")).isSome
    task := ← d.task? }

end Draft

def readArguments (words : List String) : Except Ending Invocation := do
  let draft ← words.foldlM Draft.read {}
  draft.finish

end Engraver.Console
