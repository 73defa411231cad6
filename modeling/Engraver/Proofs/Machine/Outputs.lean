import Engraver.Proofs.Hardware.Handles
import Engraver.Proofs.Machine.Contract

/-!
# Whatever ends a run switches the outputs off

There are many ways out of a run, and all of them lead through one door: the outputs of state and
hardware go off together. The sleep command leads through it too, and the run goes on behind it.
-/

namespace Engraver

/-- Laser and motors are off, and the machine does not know where it is. -/
def Machine.IsOff (m : Machine) : Prop :=
  m.laser = false ∧ m.motors = false ∧ m.homed = false

namespace Rig

/-! ## The door -/

section Door

variable {D : Type} [Driver D]

@[simp] theorem setMotors_machine (r : Rig D) (on : Bool) :
    (r.setMotors on).machine = r.machine.setMotors on := by
  simp [setMotors]

theorem shutDown_machine (r : Rig D) :
    r.shutDown.machine = { r.machine with laser := false, motors := false, homed := false } := by
  rw [shutDown, setMotors_machine]
  simp [laserOff, Machine.setMotors]

theorem shutDown_isOff (r : Rig D) : r.shutDown.machine.IsOff := by
  rw [shutDown_machine]
  exact ⟨rfl, rfl, rfl⟩

theorem shutDown_tape (r : Rig (Taped D)) :
    r.shutDown.driver.tape = r.driver.tape ++ [.laserOff, .setMotors false] := by
  rw [shutDown_driver, Taped.serve_eq, Taped.serve_eq]
  simp [Taped.record]

theorem shutDown_board (r : Rig Handle) (h : r.driver.claimed = true) :
    r.shutDown.driver.board.IsOff := by
  rw [shutDown_driver]
  simp [Driver.serve, Driver.laserOff, Driver.setMotors, h, Board.setMotors, Board.IsOff]

theorem concluded_ends (r : Rig D) (line : Nat) (result : Except MotionError Unit)
    (h : ∀ answer, (r.concluded line result).1 ≠ .ok (.next answer)) :
    ∃ before : Rig D, before.driver = r.driver ∧ (r.concluded line result).2 = before.shutDown := by
  cases result with
  | error e => exact ⟨r.notify (.aborting line e), rfl, rfl⟩
  | ok answer => exact absurd rfl (h none)

theorem perform_ends (r : Rig D) (line : Nat) (command : Command)
    (h : ∀ answer, (r.perform line command).1 ≠ .ok (.next answer)) :
    ∃ before : Rig D, Driver.Worked r.driver before.driver ∧
      (r.perform line command).2 = before.shutDown := by
  cases command with
  | move kind x y feedrate =>
    rw [perform_move] at h ⊢
    obtain ⟨before, hbefore, hend⟩ := concluded_ends _ line _ h
    exact ⟨before, hbefore ▸ move_worked r _, hend⟩
  | home =>
    rw [perform_home] at h ⊢
    obtain ⟨before, hbefore, hend⟩ := concluded_ends _ line _ h
    exact ⟨before, hbefore ▸ (home_quiet r).worked, hend⟩
  | stop kind => cases kind <;> exact ⟨r, Driver.Reaches.refl _ _, rfl⟩
  | _ => exact absurd rfl (h _)

theorem turn_ends (r : Rig D) (line : ProgramLine) (h : (r.turn line).goesOn = false) :
    ∃ before : Rig D, Driver.Worked r.driver before.driver ∧
      (r.turn line).after = before.shutDown := by
  cases hs : r.stop.take.1 with
  | true =>
    simp only [turn, step_stopped r line hs]
    exact ⟨r.looked.notify (.stopRequested line.line), Driver.Reaches.refl _ _, rfl⟩
  | false =>
    simp only [turn, Turn.goesOn, step_unstopped r line hs] at h ⊢
    apply perform_ends r.looked line.line line.command
    intro answer hn
    simp [hn] at h

theorem turn_sleeps (r : Rig D) (line : ProgramLine) (hline : line.command = .stop .sleep)
    (h : (r.turn line).flow.isOk = true) :
    (r.turn line).flow = .ok (.next none) ∧ (r.turn line).after = r.looked.shutDown := by
  cases hs : r.stop.take.1 with
  | true => simp [turn, step_stopped r line hs, Except.isOk, Except.toBool] at h
  | false =>
    simp only [turn, step_unstopped r line hs, hline]
    exact ⟨rfl, rfl⟩

end Door

/-! ## Runs -/

section Runs

variable {D : Type} [Driver D]

theorem run_ends (r : Rig D) (program : Program) (h : endsEarly (r.run program).1 = true) :
    ∃ before : Rig D, Driver.Worked r.driver before.driver ∧
      (r.run program).2 = before.shutDown := by
  rw [run_eq] at h ⊢
  obtain ⟨t, ht, hstop, hleft⟩ := last_turn r [] program.lines h
  rw [(mem_turns ht).1] at hstop hleft
  obtain ⟨before, hw, hafter⟩ := turn_ends t.before t.line hstop
  exact ⟨before, (turn_worked ht).trans hw, hleft.trans hafter⟩

/-- The final stop is one of the early ends, all of which switch the outputs off. -/
theorem left_isOff (r : Rig D) (lines : List ProgramLine) {line : Nat} {answers : List Response}
    (h : Turn.outcome [] (r.turns lines) = .ok (.terminated line answers)) :
    (r.left (r.turns lines)).machine.IsOff := by
  have hrun := run_eq r ⟨lines⟩
  obtain ⟨before, -, hshut⟩ := run_ends r ⟨lines⟩ (by rw [hrun, h]; rfl)
  rw [hrun] at hshut
  dsimp only at hshut
  rw [hshut]
  exact shutDown_isOff before

theorem turns_sleep (r : Rig D) (lines : List ProgramLine) (t : Turn D) (ht : t ∈ r.turns lines)
    (hline : t.line.command = .stop .sleep) (hok : t.flow.isOk = true) :
    t.flow = .ok (.next none) ∧ ∃ before : Rig D, Driver.Worked r.driver before.driver ∧
      t.after = before.shutDown := by
  have hturn := (mem_turns ht).1
  rw [hturn] at hok
  obtain ⟨hflow, hafter⟩ := turn_sleeps t.before t.line hline hok
  rw [hturn]
  exact ⟨hflow, t.before.looked, turn_worked ht, hafter⟩

/-- All is off in the state, and what the hardware was told last is to switch all off. -/
def IsShut (r : Rig (Taped D)) : Prop :=
  r.machine.IsOff ∧ [.laserOff, .setMotors false] <:+ r.driver.tape

theorem shutDown_isShut (r : Rig (Taped D)) : r.shutDown.IsShut :=
  ⟨shutDown_isOff r, by rw [shutDown_tape]; exact List.suffix_append _ _⟩

/-- The rig with a blank tape on its hardware. -/
def taped (r : Rig D) : Rig (Taped D) :=
  r.map fun d => ⟨d, []⟩

theorem run_taped (r : Rig D) (program : Program) :
    r.run program = ((r.taped.run program).1, (r.taped.run program).2.map Taped.driver) :=
  map_run Taped.mirror r.taped program

/-- **Safe abort.** Hardware does the same with a tape. On the tape of a run that ends by an error or
by the final stop, nothing comes after laser off and motors off, and all is off in the state. The same
holds after every sleep command that ran, and then the next line has its turn. A board whose claim the
run's handle holds is off with the state. -/
theorem early_end_shuts_outputs_down :
    (∀ (D : Type) [Driver D] (r : Rig D) (program : Program),
      r.run program = ((r.taped.run program).1, (r.taped.run program).2.map Taped.driver) ∧
      r.turns program.lines = (r.taped.turns program.lines).map (mapTurn Taped.driver) ∧
      (endsEarly (r.run program).1 = true → (r.taped.run program).2.IsShut) ∧
      ∀ (k : Nat) (t : Turn (Taped D)), (r.taped.turns program.lines)[k]? = some t →
        t.line.command = .stop .sleep → t.flow.isOk = true →
        t.after.IsShut ∧ t.flow = .ok (.next none) ∧
          (r.taped.turns program.lines)[k + 1]? = program.lines[k + 1]?.map t.after.turn) ∧
    ∀ (r : Rig Handle) (program : Program), r.driver.claimed = true →
      (endsEarly (r.run program).1 = true →
        (r.run program).2.machine.IsOff ∧ (r.run program).2.driver.board.IsOff) ∧
      ∀ t ∈ r.turns program.lines, t.line.command = .stop .sleep → t.flow.isOk = true →
        t.after.machine.IsOff ∧ t.after.driver.board.IsOff := by
  refine ⟨fun D _ r program => ⟨run_taped r program, map_turns Taped.mirror r.taped _, ?_, ?_⟩,
    fun r program hclaim => ⟨?_, ?_⟩⟩
  · intro h
    rw [run_taped] at h
    obtain ⟨before, -, hend⟩ := run_ends r.taped program h
    rw [hend]
    exact shutDown_isShut before
  · intro k t ht hline hok
    obtain ⟨hflow, before, -, hafter⟩ := turns_sleep _ _ t (List.mem_of_getElem? ht) hline hok
    refine ⟨hafter ▸ shutDown_isShut before, hflow, turns_next _ _ k t ht ?_⟩
    rw [Turn.goesOn, hflow]
  · intro h
    obtain ⟨before, hw, hend⟩ := run_ends r program h
    rw [hend]
    exact ⟨shutDown_isOff before, shutDown_board before (Handle.claimed_of_worked hw hclaim)⟩
  · intro t ht hline hok
    obtain ⟨-, before, hw, hafter⟩ := turns_sleep r _ t ht hline hok
    rw [hafter]
    exact ⟨shutDown_isOff before, shutDown_board before (Handle.claimed_of_worked hw hclaim)⟩

/-- A rig with default settings whose handle has just claimed the board. -/
def onNewBoard : Rig Handle where
  machine := .powerOn {}
  driver := ⟨{ settings := {}, claimed := true }, true⟩

/-- After a sleep command the armed laser is to cut on a board that has not been homed. -/
theorem early_end_at_unhomed_cut :
    let program : Program :=
      ⟨[⟨1, .stop .sleep⟩, ⟨2, .laserOn (some 10)⟩, ⟨3, .move .controlled (some 1) none none⟩]⟩
    let sleep := onNewBoard.taped.turn ⟨1, .stop .sleep⟩
    endsEarly (onNewBoard.run program).1 = true ∧ (onNewBoard.taped.run program).2.IsShut ∧
      (onNewBoard.run program).2.driver.board.IsOff ∧ sleep.after.IsShut ∧
      (onNewBoard.taped.turns program.lines)[1]? =
        some (sleep.after.turn ⟨2, .laserOn (some 10)⟩) := by
  intro program sleep
  have hend : endsEarly (onNewBoard.run program).1 = true := by decide +kernel
  have hany := early_end_shuts_outputs_down.1 Handle onNewBoard program
  have hclaimed := early_end_shuts_outputs_down.2 onNewBoard program rfl
  have hsleep := hany.2.2.2 0 sleep rfl rfl rfl
  exact ⟨hend, hany.2.2.1 hend, (hclaimed.1 hend).2, hsleep.1, hsleep.2.2⟩

end Runs

end Rig

end Engraver
