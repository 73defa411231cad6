import Engraver.Proofs.Machine.Outputs
import Engraver.Session.Basic

/-!
# What is done to a session

There are many operations and few things that come of them: lines are run, a source is rejected, the
session is shut down or started again, or the outputs are left alone.
-/

namespace Engraver

theorem Machine.initial_eq {settings : Settings} {picture : Except RasterFault Mask} {m : Machine}
    (h : Machine.initial settings picture = .ok m) : ∃ raster, m = { Machine.powerOn settings with raster } := by
  unfold Machine.initial at h
  split at h
  · cases h
    exact ⟨_, rfl⟩
  · split at h
    · cases h
    · rename_i mask
      unfold setRaster at h
      cases hr : Raster.make mask settings.raster.dpmm with
      | error fault => simp [hr, Except.map] at h
      | ok raster =>
        rw [hr] at h
        cases h
        exact ⟨raster, rfl⟩

namespace Session

/-- One thing done to a session; `expectStops` is for stop requests that come while lines run. -/
inductive Op where
  | run (program : Program)
  | runSource (source : String)
  | runFile (file : Except FileError String)
  | runJob (job : Job)
  | home
  | moveTo (x y : Float) (feedrate : Option Float)
  | setAbsolute
  | setRaster (mask : Mask) (dpmm : Float)
  | requestStop
  | expectStops (coming : List Bool)
  | shutDown
  | restart (picture : Except RasterFault Mask)

/-- What comes of an operation. -/
inductive Task where
  | lines (lines : List ProgramLine)
  | reject (e : LineError)
  | adjust
  | shutDown
  | restart (picture : Except RasterFault Mask)

/-- What comes of running a source. -/
def Task.ofSource (source : String) : Task :=
  match Program.parse source with
  | .error e => .reject e
  | .ok program => .lines program.lines

/-- What comes of an operation on a session that does anything. -/
def Op.task : Op → Task
  | .run program => .lines program.lines
  | .runSource source => .ofSource source
  | .runFile (.ok source) => .ofSource source
  | .runJob job => .lines job.program.lines
  | .home => .lines [⟨0, .home⟩]
  | .moveTo x y feedrate => .lines [⟨0, .move .rapid (some x) (some y) feedrate⟩]
  | .runFile (.error _) | .setAbsolute | .setRaster .. | .requestStop | .expectStops _ => .adjust
  | .shutDown => .shutDown
  | .restart picture => .restart picture

def Task.closes : Task → Bool
  | .shutDown | .restart _ => true
  | _ => false

open Driver (serve Reaches Worked)

variable {D : Type}

/-- The session with the rig that a task left, and perhaps at its final stop. -/
def leave (s : Session D) (rig : Rig D) (terminated : Bool) : Session D :=
  { s with rig, terminated }

variable [Driver D]

def apply (s : Session D) : Op → Session D
  | .run program => (s.run program).2
  | .runSource source => (s.runSource source).2
  | .runFile file => (s.runFile file).2
  | .runJob job => (s.runJob job).2.1
  | .home => s.home.2
  | .moveTo x y feedrate => (s.moveTo x y feedrate).2
  | .setAbsolute => s.setAbsolute
  | .setRaster mask dpmm => (s.setRaster mask dpmm).2
  | .requestStop => s.requestStop
  | .expectStops coming => { s with rig := { s.rig with stop := { s.rig.stop with coming } } }
  | .shutDown => s.powerDown
  | .restart picture => (s.restart picture).2

/-! ## Running -/

theorem runJob_rig (r : Rig D) (job : Job) (lines : List ProgramLine) :
    (r.runJob job lines).2 = r.left (r.turns lines) := by
  induction lines generalizing r job with
  | nil => rfl
  | cons line lines ih =>
    rcases h : r.step line with ⟨_ | _ | _, after⟩ <;>
      simp [Rig.runJob, Rig.turns, Rig.turn, Turn.goesOn, Rig.left_cons, h, ih] <;> rfl

/-- What an operation does to a session, by what comes of it. -/
def Does (s : Session D) (task : Task) (s' : Session D) : Prop :=
  match task with
  | .lines lines =>
    if s.isActive then ∃ terminated, s' = s.leave (s.rig.left (s.rig.turns lines)) terminated else s' = s
  | .reject e =>
    s' = if s.isActive then s.leave (s.rig.notify (.sourceRejected e)).shutDown s.terminated else s
  | .adjust => ∃ machine stop, machine.laser = s.rig.machine.laser ∧
      s' = s.leave { s.rig with machine, stop } s.terminated
  | .shutDown => s' = s.powerDown
  | .restart picture => s' = (s.restart picture).2

theorem run_does (s : Session D) (program : Program) :
    s.Does (.lines program.lines) (s.run program).2 := by
  unfold Does run
  cases s.isActive with
  | false => rfl
  | true =>
    have hr := congrArg Prod.snd (s.rig.run_eq program)
    dsimp only at hr ⊢
    rcases hrun : s.rig.run program with ⟨_ | outcome, rig⟩ <;> rw [hrun] at hr <;> subst hr
    · exact ⟨s.terminated, rfl⟩
    · exact ⟨s.terminated || outcome.isTerminated, rfl⟩

theorem runSource_does (s : Session D) (source : String) :
    s.Does (.ofSource source) (s.runSource source).2 := by
  unfold Task.ofSource runSource
  cases hs : s.isActive <;> cases Program.parse source
  · simp [Does, hs]
  · simp [Does, hs]
  · simp [Does, hs, leave]
  · exact run_does s _

theorem runJob_does (s : Session D) (job : Job) :
    s.Does (.lines job.program.lines) (s.runJob job).2.1 := by
  unfold Does runJob
  cases s.isActive with
  | false => rfl
  | true => exact ⟨_, congrArg (s.leave · _) (runJob_rig s.rig job.start job.program.lines)⟩

theorem execute_does (s : Session D) (command : Command) :
    s.Does (.lines [⟨0, command⟩]) (s.execute command).2 := by
  unfold Does execute
  cases s.isActive with
  | false => rfl
  | true =>
    refine ⟨s.terminated, ?_⟩
    rcases hstep : s.rig.step ⟨0, command⟩ with ⟨_ | _ | _, rig⟩ <;>
      simp [leave, Rig.turns, Rig.turn, Rig.left, Turn.goesOn, hstep]

/-- Every operation does what comes of it. -/
theorem apply_does (s : Session D) (op : Op) : s.Does op.task (s.apply op) := by
  have adjusts (machine : Machine) (stop : StopLine) (h : machine.laser = s.rig.machine.laser) :
      s.Does .adjust (s.leave { s.rig with machine, stop } s.terminated) := ⟨machine, stop, h, rfl⟩
  cases op with
  | run program => exact run_does s program
  | runSource source => exact runSource_does s source
  | runFile file =>
    cases file with
    | error e => exact adjusts s.rig.machine s.rig.stop rfl
    | ok source => exact runSource_does s source
  | runJob job => exact runJob_does s job
  | home => exact execute_does s .home
  | moveTo x y feedrate => exact execute_does s (.move .rapid (some x) (some y) feedrate)
  | setAbsolute => exact adjusts { s.rig.machine with mode := .absolute } s.rig.stop rfl
  | setRaster mask dpmm =>
    simp only [Op.task, apply, setRaster, Machine.setRaster]
    cases Raster.make mask dpmm with
    | error fault => exact adjusts s.rig.machine s.rig.stop rfl
    | ok raster => exact adjusts { s.rig.machine with raster } s.rig.stop rfl
  | requestStop => exact adjusts s.rig.machine s.rig.stop.request rfl
  | expectStops coming => exact adjusts s.rig.machine { s.rig.stop with coming } rfl
  | shutDown => rfl
  | restart picture => rfl

theorem apply_adjusts (s : Session D) (op : Op) (ht : op.task = .adjust) :
    ∃ mode raster stop, s.apply op =
      s.leave { s.rig with machine := { s.rig.machine with mode, raster }, stop } s.terminated := by
  have source (source : String) : Task.ofSource source ≠ .adjust := by
    unfold Task.ofSource
    split <;> simp
  cases op with
  | runSource text => exact absurd ht (source text)
  | runFile file =>
    cases file with
    | error e => exact ⟨_, _, _, rfl⟩
    | ok text => exact absurd ht (source text)
  | setRaster mask dpmm =>
    simp only [apply, setRaster, Machine.setRaster]
    cases Raster.make mask dpmm <;> exact ⟨_, _, _, rfl⟩
  | setAbsolute => exact ⟨_, _, _, rfl⟩
  | requestStop => exact ⟨_, _, _, rfl⟩
  | expectStops coming => exact ⟨_, _, _, rfl⟩
  | _ => cases ht

theorem eq_restart {op : Op} {picture : Except RasterFault Mask} (h : op.task = .restart picture) :
    op = .restart picture := by
  have source (text : String) : Task.ofSource text ≠ .restart picture := by
    unfold Task.ofSource
    split <;> simp
  cases op with
  | restart picture' =>
    cases h
    rfl
  | runSource text => exact absurd h (source text)
  | runFile file =>
    cases file with
    | error e => cases h
    | ok text => exact absurd h (source text)
  | _ => cases h

theorem apply_outputs (s : Session D) (op : Op) (ht : op.task = .adjust) :
    (s.apply op).rig.machine.motors = s.rig.machine.motors ∧
      (s.apply op).rig.machine.homed = s.rig.machine.homed := by
  obtain ⟨mode, raster, stop, h⟩ := apply_adjusts s op ht
  rw [h]
  exact ⟨rfl, rfl⟩

/-! ## Opening and starting again -/

theorem start_ends (settings : Settings) (picture : Except RasterFault Mask) (driver : D) :
    (∃ e, (Driver.claim driver).1 = .error e ∧ start settings picture driver =
      .error { cause := .hardware e, driver := serve driver .claim, log := [.claimFailed e] }) ∨
    (Driver.claim driver).1 = .ok () ∧
      ((∃ fault, Machine.initial settings picture = .error fault ∧ start settings picture driver =
        .error { cause := .raster fault, driver := serve (serve driver .claim) .release }) ∨
      ∃ machine, Machine.initial settings picture = .ok machine ∧ start settings picture driver =
        .ok { settings, rig := { machine, driver := serve driver .claim } }) := by
  unfold start
  dsimp only [serve]
  rcases Driver.claim driver with ⟨_ | _, driver⟩
  · exact .inl ⟨_, rfl, rfl⟩
  · refine .inr ⟨rfl, ?_⟩
    cases Machine.initial settings picture with
    | error fault => exact .inl ⟨fault, rfl, rfl⟩
    | ok machine => exact .inr ⟨machine, rfl, rfl⟩

theorem start_ok_iff {settings : Settings} {picture : Except RasterFault Mask} {driver : D} {s : Session D} :
    start settings picture driver = .ok s ↔ (Driver.claim driver).1 = .ok () ∧
      ∃ machine, Machine.initial settings picture = .ok machine ∧
        s = { settings, rig := { machine, driver := serve driver .claim } } := by
  rcases start_ends settings picture driver with
    ⟨e, hclaim, hend⟩ | ⟨hclaim, ⟨fault, hm, hend⟩ | ⟨machine, hm, hend⟩⟩ <;> rw [hend]
  · simp [hclaim]
  · simp [hm]
  · simp [hclaim, hm, eq_comm]

theorem powerDown_settings (s : Session D) : s.powerDown.settings = s.settings := by
  unfold powerDown
  split <;> rfl

theorem restart_ends (s : Session D) (picture : Except RasterFault Mask) :
    let closed := s.powerDown
    let claiming := { closed.rig with driver := serve closed.rig.driver .claim }
    (∃ e, (Driver.claim closed.rig.driver).1 = .error e ∧
      s.restart picture = (.error (.hardware e), { closed with rig := claiming })) ∨
    (Driver.claim closed.rig.driver).1 = .ok () ∧
      ((∃ fault, Machine.initial s.settings picture = .error fault ∧
        s.restart picture = (.error (.raster fault), { closed with rig := claiming, released := false })) ∨
      ∃ machine, Machine.initial s.settings picture = .ok machine ∧
        s.restart picture = (.ok (), { closed with
          rig := { claiming with machine }
          terminated := false
          released := false })) := by
  rw [← powerDown_settings s]
  unfold restart
  generalize s.powerDown = closed
  dsimp only [serve]
  rcases Driver.claim closed.rig.driver with ⟨_ | _, driver⟩
  · exact .inl ⟨_, rfl, rfl⟩
  · refine .inr ⟨rfl, ?_⟩
    cases Machine.initial closed.settings picture with
    | error fault => exact .inl ⟨fault, rfl, rfl⟩
    | ok machine => exact .inr ⟨machine, rfl, rfl⟩

/-! ## The final stop -/

theorem runJob_terminated (r : Rig D) (job : Job) (responses : List Response) (lines : List ProgramLine)
    (h : (r.runJob job lines).1.status = .terminated) :
    ∃ line answers, Turn.outcome responses (r.turns lines) = .ok (.terminated line answers) := by
  induction lines generalizing r job responses with
  | nil => cases h
  | cons line lines ih =>
    rw [Rig.runJob] at h
    rcases hs : r.step line with ⟨e | ⟨answer⟩ | _, after⟩ <;> rw [hs] at h
    · cases e <;> cases h
    · obtain ⟨last, answers, hout⟩ := ih after _ (responses ++ answer.toList) h
      exact ⟨last, answers, by simpa [Rig.turns, Rig.turn, Turn.goesOn, Turn.outcome, hs] using hout⟩
    · exact ⟨line.line, responses, by simp [Rig.turns, Rig.turn, Turn.outcome, hs]⟩

theorem open_of_active {E : Type} {s : Session E} (hs : s.isActive = true) : s.terminated = false := by
  simp only [isActive, Bool.and_eq_true, Bool.not_eq_true'] at hs
  exact hs.1

theorem run_terminated (s : Session D) (program : Program) (hs : s.isActive = true)
    (h : (s.run program).2.terminated = true) :
    ∃ line answers, Turn.outcome [] (s.rig.turns program.lines) = .ok (.terminated line answers) := by
  have hr := congrArg Prod.fst (s.rig.run_eq program)
  have hopen := open_of_active hs
  rw [run, hs] at h
  rcases hrun : s.rig.run program with ⟨e | ⟨answers⟩ | ⟨line, answers⟩, rig⟩ <;> rw [hrun] at h hr
  · simp [hopen] at h
  · simp [hopen, Outcome.isTerminated] at h
  · exact ⟨line, answers, hr.symm⟩

theorem runSource_terminated (s : Session D) (text : String) (hs : s.isActive = true)
    (h : (s.runSource text).2.terminated = true) :
    ∃ lines line answers, Task.ofSource text = .lines lines ∧
      Turn.outcome [] (s.rig.turns lines) = .ok (.terminated line answers) := by
  simp only [runSource, hs, Bool.not_true, Bool.false_eq_true, if_false] at h
  unfold Task.ofSource
  cases hp : Program.parse text with
  | error e => simp [hp, open_of_active hs] at h
  | ok program =>
    rw [hp] at h
    obtain ⟨line, answers, hout⟩ := run_terminated s program hs h
    exact ⟨program.lines, line, answers, rfl, hout⟩

theorem execute_terminated (s : Session D) (command : Command) (hs : s.isActive = true) :
    ¬(s.execute command).2.terminated = true := by
  intro h
  simp only [execute, hs, Bool.not_true, Bool.false_eq_true, if_false] at h
  rcases hstep : s.rig.step ⟨0, command⟩ with ⟨_ | _, rig⟩ <;> simp [hstep, open_of_active hs] at h

theorem apply_terminated (s : Session D) (op : Op) (hs : s.isActive = true)
    (h : (s.apply op).terminated = true) :
    ∃ lines line answers, op.task = .lines lines ∧
      Turn.outcome [] (s.rig.turns lines) = .ok (.terminated line answers) := by
  have hopen := open_of_active hs
  cases op with
  | run program =>
    obtain ⟨line, answers, hout⟩ := run_terminated s program hs h
    exact ⟨program.lines, line, answers, rfl, hout⟩
  | runSource text => exact runSource_terminated s text hs h
  | runFile file =>
    cases file with
    | error e => simp [apply, runFile, hopen] at h
    | ok text => exact runSource_terminated s text hs h
  | runJob job =>
    simp only [apply, runJob, hs, Bool.not_true, Bool.false_eq_true, if_false, hopen, Bool.false_or,
      beq_iff_eq] at h
    obtain ⟨line, answers, hout⟩ := runJob_terminated s.rig job.start [] job.program.lines h
    exact ⟨job.program.lines, line, answers, rfl, hout⟩
  | home => exact (execute_terminated s _ hs h).elim
  | moveTo x y feedrate => exact (execute_terminated s _ hs h).elim
  | setAbsolute => simp [apply, setAbsolute, hopen] at h
  | setRaster mask dpmm =>
    simp only [apply, setRaster] at h
    split at h <;> simp [hopen] at h
  | requestStop => simp [apply, requestStop, hopen] at h
  | expectStops coming => simp [apply, hopen] at h
  | shutDown =>
    simp only [apply, powerDown] at h
    split at h <;> simp [hopen] at h
  | restart picture =>
    have hdown : s.powerDown.terminated = false := by
      unfold powerDown
      split <;> simp [hopen]
    rw [apply] at h
    rcases restart_ends s picture with ⟨e, -, hend⟩ | ⟨-, ⟨fault, -, hend⟩ | ⟨machine, -, hend⟩⟩ <;>
      simp [hend, hdown] at h

/-! ## Outputs off -/

theorem initial_isOff {settings : Settings} {picture : Except RasterFault Mask} {machine : Machine}
    (h : Machine.initial settings picture = .ok machine) : machine.IsOff := by
  obtain ⟨raster, rfl⟩ := Machine.initial_eq h
  exact ⟨rfl, rfl, rfl⟩

theorem start_isOff {settings : Settings} {picture : Except RasterFault Mask} {d : D} {s : Session D}
    (h : start settings picture d = .ok s) : s.rig.machine.IsOff := by
  obtain ⟨-, machine, hm, rfl⟩ := start_ok_iff.mp h
  exact initial_isOff hm

section Closing

variable {P : Machine → Prop} (hoff : ∀ m : Machine, m.IsOff → P m)
include hoff

/-- What holds of a machine that is off holds once the hardware is given up, unless it was given up before. -/
theorem powerDown_machine (s : Session D) (h : s.released = true → P s.rig.machine) :
    P s.powerDown.rig.machine := by
  unfold powerDown
  split
  · rename_i hs
    exact h hs
  · exact hoff _ (Rig.shutDown_isOff s.rig)

theorem restart_machine (s : Session D) (picture : Except RasterFault Mask)
    (h : s.released = true → P s.rig.machine) : P (s.restart picture).2.rig.machine := by
  have hdown := powerDown_machine hoff s h
  rcases restart_ends s picture with ⟨e, -, hend⟩ | ⟨-, ⟨fault, -, hend⟩ | ⟨machine, hm, hend⟩⟩ <;> rw [hend]
  · exact hdown
  · exact hdown
  · exact hoff _ (initial_isOff hm)

end Closing

/-! ## The claim -/

theorem Does.worked {s s' : Session D} {task : Task} (h : s.Does task s') (ht : task.closes = false) :
    Worked s.rig.driver s'.rig.driver ∧ s'.released = s.released := by
  cases task with
  | lines lines =>
    simp only [Does] at h
    split at h
    · obtain ⟨terminated, rfl⟩ := h
      exact ⟨Rig.left_worked s.rig lines, rfl⟩
    · subst h
      exact ⟨Reaches.refl _ _, rfl⟩
  | reject e =>
    simp only [Does] at h
    split at h <;> subst h
    · exact ⟨(Rig.shutDown_quiet (s.rig.notify _)).worked, rfl⟩
    · exact ⟨Reaches.refl _ _, rfl⟩
  | adjust =>
    obtain ⟨machine, stop, -, rfl⟩ := h
    exact ⟨Reaches.refl _ _, rfl⟩
  | shutDown => cases ht
  | restart picture => cases ht

theorem powerDown_cases (s : Session D) :
    s.powerDown.released = true ∧
      (s.released = true ∧ s.powerDown = s ∨
        s.released = false ∧ s.powerDown.rig.driver = serve s.rig.shutDown.driver .release) := by
  unfold powerDown
  cases h : s.released with
  | true => exact ⟨h, .inl ⟨rfl, rfl⟩⟩
  | false => exact ⟨rfl, .inr ⟨rfl, rfl⟩⟩

theorem restart_claims (s : Session D) (picture : Except RasterFault Mask) :
    (s.restart picture).2.rig.driver = serve s.powerDown.rig.driver .claim ∧
      ((s.restart picture).2.released = true ↔ (Driver.claim s.powerDown.rig.driver).1 ≠ .ok ()) := by
  have hdown := (powerDown_cases s).1
  rcases restart_ends s picture with
    ⟨e, hclaim, hend⟩ | ⟨hclaim, ⟨fault, -, hend⟩ | ⟨machine, -, hend⟩⟩ <;> simp [hend, hclaim, hdown]

theorem powerDown_reaches (s : Session D) :
    Reaches Request.Fits s.rig.driver s.powerDown.rig.driver := by
  rcases (powerDown_cases s).2 with ⟨-, hsame⟩ | ⟨-, hdriver⟩
  · rw [hsame]
    exact Reaches.refl _ _
  · rw [hdriver]
    exact ((Rig.shutDown_quiet s.rig).mono fun _ hq => Request.fits_of_quiet hq).trans
      (Driver.reaches_serve _ .release trivial)

theorem apply_reaches (s : Session D) (op : Op) :
    Reaches Request.Fits s.rig.driver (s.apply op).rig.driver := by
  have h := apply_does s op
  cases ht : op.task with
  | shutDown =>
    rw [ht] at h
    rw [show s.apply op = s.powerDown from h]
    exact powerDown_reaches s
  | restart picture =>
    rw [ht] at h
    rw [show s.apply op = (s.restart picture).2 from h, (restart_claims s picture).1]
    exact (powerDown_reaches s).trans (Driver.reaches_serve _ .claim trivial)
  | _ => exact (h.worked (by rw [ht]; rfl)).1.mono fun _ hq => hq.2

theorem apply_released (s : Session D) (op : Op) (hs : s.released = true) :
    (s.apply op).rig.driver = s.rig.driver ∨ (s.apply op).rig.driver = serve s.rig.driver .claim := by
  have hdown : s.powerDown = s := by simp [powerDown, hs]
  have hidle : s.isActive = false := by simp [isActive, hs]
  have h := apply_does s op
  cases ht : op.task with
  | restart picture =>
    rw [ht] at h
    rw [show s.apply op = (s.restart picture).2 from h, (restart_claims s picture).1, hdown]
    exact .inr rfl
  | shutDown =>
    rw [ht] at h
    rw [show s.apply op = s.powerDown from h, hdown]
    exact .inl rfl
  | adjust =>
    rw [ht] at h
    obtain ⟨machine, stop, -, h⟩ := h
    rw [h]
    exact .inl rfl
  | _ =>
    simp only [ht, Does, hidle, Bool.false_eq_true, if_false] at h
    rw [h]
    exact .inl rfl

theorem start_claims (settings : Settings) (picture : Except RasterFault Mask) (driver : D) :
    match start settings picture driver with
    | .ok s => (Driver.claim driver).1 = .ok () ∧ s.rig.driver = serve driver .claim ∧ s.released = false
    | .error failure => Reaches Request.Fits driver failure.driver ∧
      ((Driver.claim driver).1 ≠ .ok () → failure.driver = serve driver .claim) := by
  have hclaim : Reaches Request.Fits driver (serve driver .claim) :=
    Driver.reaches_serve driver .claim trivial
  rcases start_ends settings picture driver with
    ⟨e, -, hend⟩ | ⟨hok, ⟨fault, -, hend⟩ | ⟨machine, -, hend⟩⟩ <;> rw [hend]
  · exact ⟨hclaim, fun _ => rfl⟩
  · exact ⟨hclaim.trans (Driver.reaches_serve _ .release trivial), absurd hok⟩
  · exact ⟨hok, rfl, rfl⟩

end Session

end Engraver
