import Engraver.Proofs.Session.Operations

/-!
# Sessions seen through a view

A session knows its rig only by what the rig does. Seen through a view that shows every step of the rig, it
answers alike and ends up in the view of what it would have been.
-/

namespace Engraver

theorem Rig.runJob_view {D E : Type} [Driver D] [Driver E] {f : Rig D → Rig E}
    (hf : ∀ r line, (f r).step line = ((r.step line).1, f (r.step line).2)) (r : Rig D) (job : Job)
    (lines : List ProgramLine) :
    (f r).runJob job lines = ((r.runJob job lines).1, f (r.runJob job lines).2) := by
  induction lines generalizing r job with
  | nil => rfl
  | cons line lines ih =>
    simp only [Rig.runJob, hf]
    rcases r.step line with ⟨_ | _ | _, after⟩
    · rfl
    · exact ih after _
    · rfl

namespace Session

inductive Answer where
  | outcome (result : Except SessionError Outcome)
  | job (result : Except SessionError JobStatus) (job : Job)
  | done (result : Except SessionError Unit)

variable {D E : Type} [Driver D] [Driver E]

def answer (s : Session D) : Op → Answer
  | .run program => .outcome (s.run program).1
  | .runSource source => .outcome (s.runSource source).1
  | .runFile file => .outcome (s.runFile file).1
  | .runJob job => .job (s.runJob job).1 (s.runJob job).2.2
  | .home => .done s.home.1
  | .moveTo x y feedrate => .done (s.moveTo x y feedrate).1
  | .setRaster mask dpmm => .done (s.setRaster mask dpmm).1
  | .restart picture => .done (s.restart picture).1
  | .setAbsolute | .requestStop | .expectStops _ | .shutDown => .done (.ok ())

/-- The same session with its rig as a view shows it. -/
def view (f : Rig D → Rig E) (s : Session D) : Session E :=
  { settings := s.settings, rig := f s.rig, terminated := s.terminated, released := s.released }

/-- A view of the rig that leaves the stop requests as they are. -/
structure View (g : D → E) (f : Rig D → Rig E) : Prop extends Rig.View g f where
  stop : ∀ r stop, f { r with stop } = { f r with stop }

namespace View

variable {g : D → E} {f : Rig D → Rig E} (h : View g f)
include h

theorem stop_eq (r : Rig D) : (f r).stop = r.stop :=
  congrArg Rig.stop (h.stop r r.stop)

theorem step (r : Rig D) (line : ProgramLine) : (f r).step line = ((r.step line).1, f (r.step line).2) := by
  refine h.toView.step h.stop_eq (fun r => ?_) r line
  rw [Rig.looked, Rig.looked, h.stop_eq]
  exact (h.stop r _).symm

/-! ## Running -/

theorem run (s : Session D) (program : Program) :
    (s.view f).run program = ((s.run program).1, (s.run program).2.view f) := by
  have hrig : (s.view f).rig.run program = _ := Rig.runLines_view h.step s.rig [] program.lines
  have hactive : (s.view f).isActive = s.isActive := rfl
  rw [Session.run, Session.run, hrig, hactive, ← Rig.run]
  cases s.isActive with
  | false => rfl
  | true => rcases s.rig.run program with ⟨_ | _, rig⟩ <;> rfl

theorem runSource (s : Session D) (source : String) :
    (s.view f).runSource source = ((s.runSource source).1, (s.runSource source).2.view f) := by
  have hactive : (s.view f).isActive = s.isActive := rfl
  rw [Session.runSource, Session.runSource, hactive]
  cases hs : s.isActive with
  | false => rfl
  | true =>
    cases Program.parse source with
    | error e =>
      have hrig : ((s.view f).rig.notify (.sourceRejected e)).shutDown =
          f (s.rig.notify (.sourceRejected e)).shutDown := by
        rw [← h.shutDown, h.notify]
        rfl
      simp only [Bool.not_true, Bool.false_eq_true, if_false, hrig]
      rfl
    | ok program => exact h.run s program

theorem runFile (s : Session D) (file : Except FileError String) :
    (s.view f).runFile file = ((s.runFile file).1, (s.runFile file).2.view f) := by
  cases file with
  | error e => rfl
  | ok source => exact h.runSource s source

theorem runJob (s : Session D) (job : Job) :
    (s.view f).runJob job = ((s.runJob job).1, (s.runJob job).2.1.view f, (s.runJob job).2.2) := by
  have hrig : (s.view f).rig.runJob job.start job.program.lines = _ :=
    Rig.runJob_view h.step s.rig job.start job.program.lines
  have hactive : (s.view f).isActive = s.isActive := rfl
  rw [Session.runJob, Session.runJob, hrig, hactive]
  cases s.isActive <;> rfl

theorem execute (s : Session D) (command : Command) :
    (s.view f).execute command = ((s.execute command).1, (s.execute command).2.view f) := by
  have hrig : (s.view f).rig.step ⟨0, command⟩ = _ := h.step s.rig ⟨0, command⟩
  have hactive : (s.view f).isActive = s.isActive := rfl
  rw [Session.execute, Session.execute, hrig, hactive]
  cases s.isActive with
  | false => rfl
  | true => rcases s.rig.step ⟨0, command⟩ with ⟨_ | _, rig⟩ <;> rfl

/-! ## Adjusting, closing and starting again -/

theorem setRaster (s : Session D) (mask : Mask) (dpmm : Float) :
    (s.view f).setRaster mask dpmm = ((s.setRaster mask dpmm).1, (s.setRaster mask dpmm).2.view f) := by
  have hmachine : (s.view f).rig.machine = s.rig.machine := h.machine s.rig
  rw [Session.setRaster, Session.setRaster, hmachine]
  cases s.rig.machine.setRaster mask dpmm with
  | error fault => rfl
  | ok machine => exact congrArg (fun rig => (_, { s.view f with rig })) (h.withMachine s.rig machine)

theorem setAbsolute (s : Session D) : (s.view f).setAbsolute = s.setAbsolute.view f := by
  have hmachine : (s.view f).rig.machine = s.rig.machine := h.machine s.rig
  rw [Session.setAbsolute, hmachine]
  exact congrArg (fun rig => { s.view f with rig }) (h.withMachine s.rig _)

theorem withStop (s : Session D) (change : StopLine → StopLine) :
    { s.view f with rig := { f s.rig with stop := change (f s.rig).stop } } =
      { s with rig := { s.rig with stop := change s.rig.stop } }.view f := by
  rw [h.stop_eq]
  exact congrArg (fun rig => { s.view f with rig }) (h.stop s.rig _).symm

theorem powerDown (s : Session D) : (s.view f).powerDown = s.powerDown.view f := by
  have hreleased : (s.view f).released = s.released := rfl
  have hrig : (s.view f).rig.shutDown = f s.rig.shutDown := h.shutDown s.rig
  rw [Session.powerDown, Session.powerDown, hreleased, hrig]
  cases s.released with
  | true => rfl
  | false =>
    simp only [Bool.false_eq_true, if_false, h.driver, h.likeness.release, h.withDriver]
    rfl

theorem restart (hg : Driver.Mirror g) (s : Session D) (picture : Except RasterFault Mask) :
    (s.view f).restart picture = ((s.restart picture).1, (s.restart picture).2.view f) := by
  rw [Session.restart, Session.restart, h.powerDown]
  generalize s.powerDown = closed
  have hclaim : Driver.claim (closed.view f).rig.driver = _ :=
    (congrArg Driver.claim (h.driver closed.rig)).trans (hg.claim closed.rig.driver)
  have hsettings : (closed.view f).settings = closed.settings := rfl
  rw [hclaim, hsettings]
  rcases Driver.claim closed.rig.driver with ⟨_ | _, driver⟩
  · exact congrArg (fun rig => (_, { closed.view f with rig })) (h.withDriver closed.rig driver)
  · dsimp only
    cases Machine.initial closed.settings picture with
    | error fault =>
      exact congrArg (fun rig => (_, { closed.view f with rig, released := false }))
        (h.withDriver closed.rig driver)
    | ok machine =>
      exact congrArg (fun rig => (_, { closed.view f with rig, terminated := false, released := false }))
        (h.change closed.rig machine driver).symm

/-! ## Any operation -/

/-- Only starting again claims the hardware, so only that needs a whole mirror. -/
theorem does (s : Session D) (op : Op) (hop : ∀ picture, op = .restart picture → Driver.Mirror g) :
    (s.view f).answer op = s.answer op ∧ (s.view f).apply op = (s.apply op).view f := by
  cases op with
  | run program => simp only [answer, apply, h.run, and_self]
  | runSource source => simp only [answer, apply, h.runSource, and_self]
  | runFile file => simp only [answer, apply, h.runFile, and_self]
  | runJob job => simp only [answer, apply, h.runJob, and_self]
  | home => simp only [answer, apply, home, h.execute, and_self]
  | moveTo x y feedrate => simp only [answer, apply, moveTo, h.execute, and_self]
  | setAbsolute => exact ⟨rfl, h.setAbsolute s⟩
  | setRaster mask dpmm => simp only [answer, apply, h.setRaster, and_self]
  | requestStop => exact ⟨rfl, h.withStop s StopLine.request⟩
  | expectStops coming => exact ⟨rfl, h.withStop s ({ · with coming })⟩
  | shutDown => exact ⟨rfl, h.powerDown s⟩
  | restart picture => simp only [answer, apply, h.restart (hop picture rfl), and_self]

end View

end Session

end Engraver
