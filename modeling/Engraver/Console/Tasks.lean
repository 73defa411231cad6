import Engraver.Console.Arguments
import Engraver.Console.Failure
import Engraver.Console.Log
import Engraver.Hardware.Handle
import Engraver.Raster.Artwork

/-!
# Tasks

What the program does for a command line: it runs a program on the simulated board, checks one, or
shows the plan of a move.
-/

namespace Engraver

/-- The plan of a move from the origin, as if the machine had just been switched on; with `cut` the
laser is armed. -/
def Machine.dryRun (m : Machine) (target : Point Float) (cut : Bool) : Except (Refusal Float) Plan :=
  { m with laser := cut }.plan (if cut then .controlled else .rapid) target

/-- The picture that the settings name; without one nobody looks at it. -/
def RasterSettings.picture (s : RasterSettings) : Reading (Except RasterFault Mask) :=
  match s.path with
  | none => .done (.error .unreadable)
  | some path => do return Artwork.load path (← .file path) s.invert

namespace Console

inductive Exit where
  | success
  | failure (cause : Failure)
  /-- The command line makes no sense. -/
  | misuse

def Exit.code : Exit → Nat
  | success => 0
  | failure _ => 1
  | misuse => 2

/-- What the program prints, and how it ends. -/
structure Answer where
  /-- What the log's filter has that is no rule. -/
  complaints : List String := []
  lines : List String := []
  report : Option Json := none
  ending : Exit := .success

def versionText : String :=
  "etch-host 0.1.0"

/-- What the program is for, and its tasks and options. -/
def helpLines : List String := [
  "Laser etcher host: run, check and plan G-code programs",
  "",
  "Usage: etch-host [OPTIONS] <COMMAND>",
  "",
  "Commands:",
  "  run    Execute a program on the simulated board",
  "  check  Parse a program without executing it",
  "  plan   Print the actuation plan for a move from the origin as JSON",
  "  help   Print this message or the help of the given subcommand(s)",
  "",
  "Options:",
  "  -c, --config <CONFIG>  Path to a TOML config file (defaults are used when omitted)",
  "  -v, --verbose...       More logging (-v debug, -vv trace)",
  "  -h, --help             Print help",
  "  -V, --version          Print version"]

def failed (cause : Failure) : Answer :=
  { ending := .failure cause }

/-- What is said of the picture that the settings name. -/
def pictureRemarks (settings : Settings) : List Remark :=
  settings.raster.path.toList.map .picture

/-- An answer together with what the log leaves of remarks that were made before it. -/
def Answer.logged (filter : Filter) (remarks : List Remark) (answer : Answer) : Answer :=
  { answer with
    complaints := filter.complaints
    lines := Log.leftovers filter remarks ++ answer.lines }

/-! ## The three tasks -/

def check (name : String) (file : Contents) : Answer :=
  match file.text with
  | .error e => failed (.file e)
  | .ok source =>
    match Program.parse source with
    | .error e => failed (.line e)
    | .ok program =>
      { lines := (Text.lines s!"{name}: {program.size} commands OK".toList).map .ofList }

def plan (settings : Settings) (picture : Except RasterFault Mask) (target : Point Float)
    (cut steps : Bool) : Answer :=
  match Machine.initial settings picture with
  | .error fault => failed (.artwork fault)
  | .ok machine =>
    match machine.dryRun target cut with
    | .error refusal => failed (.plan refusal)
    | .ok plan => { report := some (plan.report steps) }

/-- How a job's end ends the program. -/
def exitOf (job : Job) : Exit :=
  match job.status with
  | .completed | .terminated => .success
  | _ => .failure (.unfinished job.error)

/-- What is said of a job that has been run. -/
def runAnswer (job : Job) (rig : Rig Handle) : Answer :=
  let head := rig.driver.board.head
  { lines := job.responses.map Response.toText
    report := some (.object [("board_position", .pair head.x head.y), ("job", job.report),
      ("motion", rig.stats.report), ("state", rig.machine.report)])
    ending := exitOf job }

/-- Run a job on a new simulated board. -/
def run (settings : Settings) (picture : Except RasterFault Mask) (job : Job) : Answer :=
  match Session.start settings picture (⟨{ settings := settings.board }, false⟩ : Handle) with
  | .error failure => failed (.session failure.cause)
  | .ok session =>
    match session.runJob job with
    | (.error e, _, _) => failed (.session e)
    | (.ok _, session, job) => runAnswer job session.rig

/-! ## The whole program -/

def Invocation.filter (invocation : Invocation) (settings : Settings) : Filter :=
  if invocation.verbose then .everything else .read settings.log.level

def perform (settings : Settings) (filter : Filter) : Task → Reading Answer
  | .check file => do return (check file (← .file file)).logged filter []
  | .plan target cut steps => do
    let picture ← settings.raster.picture
    return (plan settings picture target cut steps).logged filter (pictureRemarks settings)
  | .run file => do
    match Job.load file (← Reading.file file).text with
    | .error (.line e) => return (failed (.job (.line e))).logged filter [.rejected file e]
    | .error e => return (failed (.job e)).logged filter []
    | .ok job =>
      let picture ← settings.raster.picture
      return (run settings picture job).logged filter
        (.loaded file job.program.size :: pictureRemarks settings)

/-- The settings in the file that a command line names, or all defaults. -/
def settings : Option String → Reading (Except SettingsError Settings)
  | none => .done (.ok {})
  | some path => do return Settings.load (← .file path)

def execute (words : List String) : Reading Answer :=
  match readArguments words with
  | .error .refused => .done { ending := .misuse }
  | .error .help => .done { lines := helpLines }
  | .error .version => .done { lines := [versionText] }
  | .ok invocation => do
    match ← Console.settings invocation.settings with
    | .error e => return failed (.settings e)
    | .ok settings => perform settings (invocation.filter settings) invocation.task

end Console

end Engraver
