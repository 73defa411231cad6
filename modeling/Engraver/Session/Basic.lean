import Engraver.Session.Job

/-!
# Sessions

A session owns a machine and the claim on its hardware. It ends at a final stop or when it is shut
down; then it refuses everything until it is started again.
-/

namespace Engraver

/-- Why a session does not do what it is asked. -/
inductive SessionError where
  | line (cause : LineError)
  | execution (cause : ExecutionError)
  | hardware (cause : HardwareError)
  | raster (cause : RasterFault)
  | file (cause : FileError)
  | terminated

def SessionError.message : SessionError → String
  | line cause => cause.message
  | execution cause => "Execution error: " ++ cause.message
  | hardware cause => "Hardware error: " ++ cause.message
  | raster cause => "Raster error: " ++ cause.message
  | file cause => "IO error: " ++ cause.message
  | terminated => "Session terminated by M0; reinitialize before running more commands"

/-- The state when the machine is switched on, with its picture. The picture is looked at only when
the settings name one. -/
def Machine.initial (settings : Settings) (picture : Except RasterFault Mask) :
    Except RasterFault Machine :=
  match settings.raster.path with
  | none => .ok (.powerOn settings)
  | some _ =>
    match picture with
    | .error fault => .error fault
    | .ok mask => (Machine.powerOn settings).setRaster mask settings.raster.dpmm

/-- One machine, its hardware and its settings. -/
structure Session (D : Type) where
  settings : Settings
  rig : Rig D
  /-- A final stop was reached. -/
  terminated : Bool := false
  /-- The hardware was given up. -/
  released : Bool := false

/-- A session that could not be opened: why, the driver handed back, and the log. -/
structure OpenFailure (D : Type) where
  cause : SessionError
  driver : D
  log : List Notice := []

namespace Session

variable {D E : Type}

def withDriver (s : Session D) (driver : E) : Session E :=
  { settings := s.settings, rig := s.rig.withDriver driver, terminated := s.terminated,
    released := s.released }

def isActive (s : Session D) : Bool :=
  !s.terminated && !s.released

def isHomed (s : Session D) : Bool :=
  s.rig.machine.homed

/-- Ask for a stop before the next command. -/
def requestStop (s : Session D) : Session D :=
  { s with rig := { s.rig with stop := s.rig.stop.request } }

/-- Take coordinates as places on the bed. -/
def setAbsolute (s : Session D) : Session D :=
  { s with rig := { s.rig with machine := { s.rig.machine with mode := .absolute } } }

def setRaster (s : Session D) (mask : Mask) (dpmm : Float) : Except SessionError Unit × Session D :=
  match s.rig.machine.setRaster mask dpmm with
  | .ok machine => (.ok (), { s with rig := { s.rig with machine } })
  | .error fault => (.error (.raster fault), s)

variable [Driver D]

/-! ## Opening and closing -/

/-- Claim the hardware and switch the machine on. -/
def start (settings : Settings) (picture : Except RasterFault Mask) (driver : D) :
    Except (OpenFailure D) (Session D) :=
  match Driver.claim driver with
  | (.error e, driver) => .error { cause := .hardware e, driver, log := [.claimFailed e] }
  | (.ok (), driver) =>
    match Machine.initial settings picture with
    | .error fault => .error { cause := .raster fault, driver := Driver.release driver }
    | .ok machine => .ok { settings, rig := { machine, driver } }

/-- Outputs off and the hardware given up, once. -/
def powerDown (s : Session D) : Session D :=
  if s.released then s
  else
    let rig := s.rig.shutDown
    { s with rig := { rig with driver := Driver.release rig.driver }, released := true }

/-- Bring the session back to the state of a new one. -/
def restart (s : Session D) (picture : Except RasterFault Mask) :
    Except SessionError Unit × Session D :=
  let s := s.powerDown
  match Driver.claim s.rig.driver with
  | (.error e, driver) => (.error (.hardware e), { s with rig := { s.rig with driver } })
  | (.ok (), driver) =>
    let s := { s with rig := { s.rig with driver }, released := false }
    match Machine.initial s.settings picture with
    | .error fault => (.error (.raster fault), s)
    | .ok machine => (.ok (), { s with rig := { s.rig with machine }, terminated := false })

/-! ## Running -/

def run (s : Session D) (program : Program) : Except SessionError Outcome × Session D :=
  if !s.isActive then (.error .terminated, s)
  else
    match s.rig.run program with
    | (.error e, rig) => (.error (.execution e), { s with rig })
    | (.ok outcome, rig) =>
      (.ok outcome, { s with rig, terminated := s.terminated || outcome.isTerminated })

/-- Run a source. A bad line runs nothing, but laser and motors go off. -/
def runSource (s : Session D) (source : String) : Except SessionError Outcome × Session D :=
  if !s.isActive then (.error .terminated, s)
  else
    match Program.parse source with
    | .error e => (.error (.line e), { s with rig := (s.rig.notify (.sourceRejected e)).shutDown })
    | .ok program => s.run program

def runFile (s : Session D) (file : Except FileError String) :
    Except SessionError Outcome × Session D :=
  match file with
  | .error e => (.error (.file e), s)
  | .ok source => s.runSource source

/-- Run a job and keep the record of it. -/
def runJob (s : Session D) (job : Job) : Except SessionError JobStatus × Session D × Job :=
  if !s.isActive then (.error .terminated, s, job)
  else
    let (job, rig) := s.rig.runJob job.start job.program.lines
    (.ok job.status, { s with rig, terminated := s.terminated || job.status == .terminated }, job)

/-- Carry out one command that stands in no program. -/
def execute (s : Session D) (command : Command) : Except SessionError Unit × Session D :=
  if !s.isActive then (.error .terminated, s)
  else
    match s.rig.step ⟨0, command⟩ with
    | (.error e, rig) => (.error (.execution e), { s with rig })
    | (.ok _, rig) => (.ok (), { s with rig })

def home (s : Session D) : Except SessionError Unit × Session D :=
  s.execute .home

def moveTo (s : Session D) (x y : Float) (feedrate : Option Float) :
    Except SessionError Unit × Session D :=
  s.execute (.move .rapid (some x) (some y) feedrate)

end Session

end Engraver
