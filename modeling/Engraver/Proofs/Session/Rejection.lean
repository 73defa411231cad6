import Engraver.Proofs.Machine.Counters
import Engraver.Proofs.Machine.Queries
import Engraver.Proofs.Session.Agreement

/-!
# Sources that are refused

A source is read whole before its first command is run. If it is refused, then outputs go off, and nothing else
happens to the session or to its board.
-/

namespace Engraver

open Driver (serve)

/-- The machine with its laser disarmed and its motors off; without motors its place is lost. -/
def Machine.outputsOff (m : Machine) : Machine :=
  { m with laser := false, motors := false, homed := false }

/-- The board with its laser and motors off; without motors its place is lost. -/
def Board.outputsOff (b : Board) : Board :=
  { b with laser := false, motors := false, homed := false }

theorem Rig.shutDown_log {D : Type} [Driver D] (r : Rig D) : r.log <+: r.shutDown.log := by
  simp only [shutDown, setMotors, notifyIf]
  split
  · exact List.prefix_append r.log _
  · exact List.prefix_refl r.log

theorem Rig.shutDown_claimed (r : Rig Handle) (h : r.driver.claimed = true) :
    r.shutDown = { r with machine := r.machine.outputsOff, driver := ⟨r.driver.board.outputsOff, true⟩ } := by
  simp [shutDown, laserOff, setMotors, notifyIf, Driver.laserOff, Driver.setMotors, h, Board.setMotors,
    Board.outputsOff, Machine.setMotors, Machine.outputsOff]

namespace Session

/-- Outputs went off, and nothing else happened than that the log got longer. -/
structure OnlyShutDown {D : Type} [Driver D] (s s' : Session D) : Prop where
  machine : s'.rig.machine = s.rig.machine.outputsOff
  driver : s'.rig.driver = serve (serve s.rig.driver .laserOff) (.setMotors false)
  stats : s'.rig.stats = s.rig.stats
  stop : s'.rig.stop = s.rig.stop
  log : s.rig.log <+: s'.rig.log
  settings : s'.settings = s.settings
  terminated : s'.terminated = s.terminated
  released : s'.released = s.released

variable {D : Type} [Driver D]

theorem runSource_rejected {s : Session D} (hs : s.isActive = true) {source : String} {e : LineError}
    (h : Program.parse source = .error e) :
    s.runSource source =
      (.error (.line e), { s with rig := (s.rig.notify (.sourceRejected e)).shutDown }) := by
  simp [runSource, hs, h]

theorem runSource_parsed {s : Session D} (hs : s.isActive = true) {source : String} {program : Program}
    (h : Program.parse source = .ok program) : s.runSource source = s.run program := by
  simp [runSource, hs, h]

theorem rejected_onlyShutDown {s : Session D} (hs : s.isActive = true) {source : String} {e : LineError}
    (h : Program.parse source = .error e) : s.OnlyShutDown (s.runSource source).2 := by
  rw [runSource_rejected hs h]
  constructor
  case machine => exact Rig.shutDown_machine _
  case driver => exact Rig.shutDown_driver _
  case stats => exact Rig.shutDown_stats _
  case stop => exact Rig.shutDown_stop _
  case log =>
    exact (List.prefix_append s.rig.log [.sourceRejected e]).trans
      (Rig.shutDown_log (s.rig.notify (.sourceRejected e)))
  all_goals rfl

/-- The session with its outputs off, and with a line in its log about the source that was refused. -/
def refused (s : Session D) (e : LineError) : Session D :=
  { s with rig := { s.rig with machine := s.rig.machine.outputsOff, log := s.rig.log ++ [.sourceRejected e] } }

theorem runSource_refused {s : Session Handle} (hs : s.isActive = true) (hc : s.rig.driver.claimed = true)
    {source : String} {e : LineError} (h : Program.parse source = .error e) :
    (s.runSource source).2 = (s.refused e).withDriver ⟨s.rig.driver.board.outputsOff, true⟩ := by
  rw [runSource_rejected hs h, Rig.shutDown_claimed (s.rig.notify _) hc]
  rfl

end Session

namespace Workshop

theorem Sound.ask_rejected {w : Workshop} (h : w.Sound) {i : Nat} {s : Session Bool}
    (hi : w.sessions[i]? = some (some s)) (hs : s.isActive = true) {source : String} {e : LineError}
    (hp : Program.parse source = .error e) :
    w.board.claimed = true ∧ s.rig.driver = true ∧
      w.apply (.ask i (.runSource source)) = ⟨w.board.outputsOff, w.sessions.set i (some (s.refused e))⟩ := by
  obtain ⟨-, hc⟩ := Session.active_cases (s := wire w.board s) (h.knows i s hi) hs
  obtain ⟨owner, ho⟩ := h.owned
  have howns : w.bench.handles[i]? = some (some true) := (bench_handle hi).trans (by rw [← hc]; rfl)
  refine ⟨ho.singleClaim.2.1.mpr ⟨i, howns⟩, hc, ?_⟩
  have hparked : (s.refused e).withDriver true = s.refused e := by
    rw [← show s.rig.driver = true from hc]
    rfl
  rw [apply_ask hi, Session.apply, Session.runSource_refused (s := wire w.board s) hs hc hp]
  exact congrArg (fun s => Workshop.mk w.board.outputsOff (w.sessions.set i (some s))) hparked

/-- **A refused source runs nothing.** An active session answers a source that cannot be read with what is wrong
with it. Outputs go off in the state and in the hardware, whatever the hardware is; nothing else is asked of it,
nothing is counted, a request to stop still waits, and the session stays active. On a board that sessions share
neither the other sessions nor anything else of the board changes. A source that can be read is run as the
program it is. -/
theorem rejected_source_runs_nothing (source : String) :
    (∀ {D : Type} [Driver D] (s : Session D), s.isActive = true →
      (∀ e, Program.parse source = .error e →
        (s.runSource source).1 = .error (.line e) ∧ (s.runSource source).2.isActive = true ∧
          s.OnlyShutDown (s.runSource source).2) ∧
      ∀ program, Program.parse source = .ok program → s.runSource source = s.run program) ∧
    ∀ (board : BoardSettings) (ops : List Op) (i : Nat) (s : Session Bool),
      (after board ops).sessions[i]? = some (some s) → s.isActive = true →
      ∀ e, Program.parse source = .error e →
        let w := after board ops
        w.board.claimed = true ∧ s.rig.driver = true ∧
          w.apply (.ask i (.runSource source)) = ⟨w.board.outputsOff, w.sessions.set i (some (s.refused e))⟩ := by
  refine ⟨fun s hs => ⟨fun e h => ⟨?_, ?_, Session.rejected_onlyShutDown hs h⟩, fun program h => ?_⟩, ?_⟩
  · rw [Session.runSource_rejected hs h]
  · rw [Session.runSource_rejected hs h]
    exact hs
  · exact Session.runSource_parsed hs h
  · intro board ops i s hi hs e h
    exact (after_sound board ops).ask_rejected hi hs h

/-- The machine is homed and its laser armed, and a request to stop waits. The second line of the source is bad. -/
theorem armed_machine_refuses_source :
    let w := after {} [.start {} (.error .empty), .ask 0 (.runSource "G28\nM3 S255"), .ask 0 .requestStop]
    let source := "G1 X1\nG1 Z5"
    let e : LineError := ⟨2, "G1 Z5", .unsupportedParameter "G1" 'Z'⟩
    ∃ s : Session Bool, w.sessions[0]? = some (some s) ∧ Program.parse source = .error e ∧
      (s.isActive = true ∧ s.isHomed = true ∧ s.rig.machine.laser = true ∧ s.rig.stop.pending = true) ∧
      ((wire w.board s).runSource source).1 = .error (.line e) ∧
      w.apply (.ask 0 (.runSource source)) = ⟨w.board.outputsOff, [some (s.refused e)]⟩ := by
  intro w source e
  have hbad : Program.parse "G1 X1\nG1 Z5" = .error ⟨2, "G1 Z5", .unsupportedParameter "G1" 'Z'⟩ := rfl
  refine ⟨_, rfl, hbad, ⟨rfl, rfl, rfl, rfl⟩, ?_, ?_⟩
  · exact (((rejected_source_runs_nothing source).1 (wire w.board _) rfl).1 e hbad).1
  · exact ((rejected_source_runs_nothing source).2 {} _ 0 _ rfl rfl e hbad).2.2

end Workshop

end Engraver
