import Engraver.Report.Basic
import Engraver.Settings.Load
import Engraver.Text.Quoted
import Engraver.Text.Shown

/-!
# Failures

Why the program fails, shown by its constructors, its numbers and its quoted texts.
-/

namespace Engraver

def LineFault.inspect : LineFault → String
  | unknownCommand name => Text.applied "UnknownCommand" (Text.quote name)
  | unimplemented name => Text.applied "Unimplemented" (Text.quote name)
  | unsupportedParameter command letter =>
    Text.record "UnsupportedParameter"
      [("command", Text.quote command), ("letter", Text.letter letter)]
  | invalidValue letter value =>
    Text.record "InvalidValue" [("letter", Text.letter letter), ("value", Text.quote value)]
  | duplicateParameter letter => Text.applied "DuplicateParameter" (Text.letter letter)
  | malformedParameter word => Text.applied "MalformedParameter" (Text.quote word)

def LineError.inspect (e : LineError) : String :=
  Text.record "ParseError"
    [("line", toString e.line), ("text", Text.quote e.text), ("kind", e.fault.inspect)]

/-- An error of the operating system. -/
def inspectSystem (code : Nat) (kind message : String) : String :=
  Text.record "Os" [("code", toString code), ("kind", kind), ("message", Text.quote message)]

def FileError.inspect : FileError → String
  | notFound => inspectSystem 2 "NotFound" "No such file or directory"
  | notDirectory => inspectSystem 20 "NotADirectory" "Not a directory"
  | isDirectory => inspectSystem 21 "IsADirectory" "Is a directory"
  | nameTooLong => inspectSystem 36 "InvalidFilename" "File name too long"
  | notText =>
    Text.record "Error" [("kind", "InvalidData"), ("message", Text.quote notText.message)]

def Refusal.inspect : Refusal Float → String
  | notFinite delta =>
    Text.record "NonFinite" [("dx", Double.inspect delta.x), ("dy", Double.inspect delta.y)]
  | tooLong steps limit =>
    Text.record "TooManySteps" [("steps", toString steps), ("limit", toString limit)]

def RasterFault.inspect : RasterFault → String
  | unreadable => "Image"
  | empty => "Empty"
  | ragged => "Ragged"
  | badResolution dpmm => Text.applied "InvalidDpmm" (Double.inspect dpmm)

def SettingsError.inspect : SettingsError → String
  | file cause => Text.applied "Io" cause.inspect
  | unreadable => "Toml"
  | invalid cause => Text.applied "Invalid" (Text.quote cause.message)

def JobError.inspect : JobError → String
  | file cause => Text.applied "Io" cause.inspect
  | line cause => Text.applied "Parse" cause.inspect

def HardwareError.inspect : HardwareError → String
  | initFailed reason => Text.applied "InitFailed" (Text.quote reason)
  | busy => "Busy"

def Status.inspect : Status → String
  | completed => "Completed"
  | triggered code switches =>
    Text.record "Triggered"
      [("code", toString code), ("switches", Text.applied "EndstopStatus" (toString switches.bits))]
  | fault code => Text.applied "Fault" (toString code)

def MotionFault.inspect (f : MotionFault) : String :=
  Text.record "MotionFault" [("status", f.status.inspect)]

def ExecutionError.inspect : ExecutionError → String
  | motion line fault =>
    Text.record "Motion" [("line", toString line), ("fault", fault.inspect)]
  | plan line refusal => Text.record "Plan" [("line", toString line), ("error", refusal.inspect)]
  | stopRequested line => Text.record "StopRequested" [("line", toString line)]

def SessionError.inspect : SessionError → String
  | line cause => Text.applied "Parse" cause.inspect
  | execution cause => Text.applied "Execution" cause.inspect
  | hardware cause => Text.applied "Hardware" cause.inspect
  | raster cause => Text.applied "Raster" cause.inspect
  | file cause => Text.applied "Io" cause.inspect
  | terminated => "Terminated"

namespace Console

/-- Why the program fails. -/
inductive Failure where
  | settings (cause : SettingsError)
  | file (cause : FileError)
  | line (cause : LineError)
  | job (cause : JobError)
  | session (cause : SessionError)
  | artwork (cause : RasterFault)
  | plan (cause : Refusal Float)
  /-- The job ended by an error. -/
  | unfinished (cause : Option ExecutionError)

def Failure.inspect : Failure → String
  | settings cause => cause.inspect
  | file cause => cause.inspect
  | line cause => cause.inspect
  | job cause => cause.inspect
  | session cause => cause.inspect
  | artwork cause => cause.inspect
  | plan cause => cause.inspect
  | unfinished cause => Text.quote ((cause.map ExecutionError.message).getD "job did not complete")

/-- A failure in the text of another format, which is not shown by its constructors. -/
def Failure.isForeign : Failure → Bool
  | settings .unreadable | artwork .unreadable | session (.raster .unreadable) => true
  | _ => false

end Console

end Engraver
