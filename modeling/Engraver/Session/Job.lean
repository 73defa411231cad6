import Engraver.Files
import Engraver.Machine.Dispatch

/-!
# Jobs

A job is a program with a record of how far it has come.
-/

namespace Engraver

/-- How a job stands. -/
inductive JobStatus where
  | idle
  | running
  | completed
  /-- Ended by a stop request. -/
  | stopped
  /-- Ended by the final stop. -/
  | terminated
  /-- Ended by a motion that failed or was refused. -/
  | faulted
deriving Repr, DecidableEq

namespace JobStatus

/-- Whether the job has been run to its end, whatever the end. -/
def isFinished : JobStatus → Bool
  | idle | running => false
  | _ => true

/-- How a job stands that ended by an error. -/
def ofError : ExecutionError → JobStatus
  | .stopRequested _ => .stopped
  | .motion .. | .plan .. => .faulted

end JobStatus

/-- A program with the record of its last run. -/
structure Job where
  name : String
  program : Program
  status : JobStatus := .idle
  /-- The line of the command that was begun last. -/
  currentLine : Option Nat := none
  /-- The number of commands that ran. -/
  executed : Nat := 0
  responses : List Response := []
  error : Option ExecutionError := none

inductive JobError where
  | file (cause : FileError)
  | line (cause : LineError)

def JobError.message : JobError → String
  | file cause => "Failed to read program file: " ++ cause.message
  | line cause => cause.message

namespace Job

def new (name : String) (program : Program) : Job :=
  { name, program }

def load (name : String) (file : Except FileError String) : Except JobError Job := do
  let source ← file.mapError .file
  let program ← (Program.parse source).mapError .line
  return .new name program

/-- The part of the commands that ran. -/
def progress (job : Job) : Float :=
  if job.program.size = 0 then
    if job.status = .completed then 1 else 0
  else Float.ofNat job.executed / Float.ofNat job.program.size

/-- The job at the start of a run, with nothing left of the runs before. -/
def start (job : Job) : Job :=
  { name := job.name, program := job.program, status := .running }

/-- The job when the command of a line begins. -/
def beginLine (job : Job) (line : Nat) : Job :=
  { job with currentLine := some line }

/-- The job when a command has run. -/
def finishLine (job : Job) (answer : Option Response) : Job :=
  { job with executed := job.executed + 1, responses := job.responses ++ answer.toList }

/-- The job at the end of a run. -/
def finish (job : Job) (status : JobStatus) (error : Option ExecutionError) : Job :=
  { job with status, error }

end Job

namespace Rig

variable {D : Type} [Driver D]

/-- Run lines and keep the record of them in a job. -/
def runJob (r : Rig D) (job : Job) : List ProgramLine → Job × Rig D
  | [] => (job.finish .completed none, r)
  | line :: lines =>
    let job := job.beginLine line.line
    match r.step line with
    | (.ok (.next answer), r) => r.runJob (job.finishLine answer) lines
    | (.ok .terminate, r) => ((job.finishLine none).finish .terminated none, r)
    | (.error e, r) => (job.finish (.ofError e) (some e), r)

end Rig

end Engraver
