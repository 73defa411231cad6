import Engraver.Proofs.Machine.Outputs

/-!
# Where the machine believes it is

A move is committed as a whole when the hardware reports that all of it ran, and not at all otherwise.
So the position after a run is that of the last commit: a completed move, a completed homing or a set
position.
-/

namespace Engraver

namespace Status

theorem isCompleted_ofCode (code : Int) : (ofCode code).isCompleted = decide (code = 0) := by
  unfold ofCode
  split
  · simp [isCompleted, *]
  · split <;> simp [isCompleted, *]

theorem code_ofCode (code : Int) : (ofCode code).code = code := by
  unfold ofCode
  split
  · simp [Status.code, *]
  · split <;> rfl

end Status

namespace Machine

/-- The machine after a feedrate word, if there is one. -/
def fed (m : Machine) (kind : MoveKind) : Option Float → Machine
  | none => m
  | some feedrate => m.withFeedrate kind feedrate

/-- The machine with another speed for the moves of a kind. -/
def withSpeed (m : Machine) (kind : MoveKind) (speed : Float) : Machine :=
  if m.cuts kind then { m with cutSpeed := speed } else { m with travelSpeed := speed }

theorem fed_frame (m : Machine) (kind : MoveKind) (feedrate : Option Float) :
    ∃ speed, m.fed kind feedrate = m.withSpeed kind speed := by
  have hkept : m = m.withSpeed kind (if m.cuts kind then m.cutSpeed else m.travelSpeed) := by
    unfold withSpeed
    split <;> rfl
  cases feedrate with
  | none => exact ⟨_, hkept⟩
  | some feedrate =>
    rw [fed, withFeedrate]
    split
    · exact ⟨_, hkept⟩
    · unfold withSpeed setSpeeds
      split
      · exact ⟨_, rfl⟩
      · exact ⟨_, rfl⟩

theorem withSpeed_position (m : Machine) (kind : MoveKind) (speed : Float) :
    (m.withSpeed kind speed).position = m.position ∧ (m.withSpeed kind speed).mode = m.mode := by
  unfold withSpeed
  split <;> exact ⟨rfl, rfl⟩

@[simp] theorem fed_position (m : Machine) (kind : MoveKind) (feedrate : Option Float) :
    (m.fed kind feedrate).position = m.position := by
  obtain ⟨speed, h⟩ := fed_frame m kind feedrate
  rw [h, (withSpeed_position m kind speed).1]

theorem fed_mode (m : Machine) (kind : MoveKind) (feedrate : Option Float) :
    (m.fed kind feedrate).mode = m.mode := by
  obtain ⟨speed, h⟩ := m.fed_frame kind feedrate
  rw [h, (withSpeed_position m kind speed).2]

@[simp] theorem fed_delta (m : Machine) (kind : MoveKind) (feedrate x y : Option Float) :
    (m.fed kind feedrate).delta x y = m.delta x y := by
  obtain ⟨speed, h⟩ := fed_frame m kind feedrate
  rw [h, delta, delta, (withSpeed_position m kind speed).1, (withSpeed_position m kind speed).2]

@[simp] theorem fed_target (m : Machine) (kind : MoveKind) (feedrate x y : Option Float) :
    (m.fed kind feedrate).target x y = m.target x y := by
  simp [target]

end Machine

namespace Rig

@[simp] theorem ready_machine {D : Type} (r : Rig D) (m : Move) :
    (r.ready m).machine = r.machine.fed m.kind m.feedrate := by
  rw [ready, notifyIf_machine]
  cases m.feedrate with
  | none => rfl
  | some feedrate => simp [applyFeedrate, Machine.fed]

/-! ## One motion -/

section Motion

variable {D : Type} [Driver D]

def homingCode (r : Rig D) : Int :=
  (Driver.home (Driver.serve r.driver (.setMotors true))).1

theorem move_of_refused (r : Rig D) (m : Move) (refusal : Refusal Float)
    (h : (r.machine.fed m.kind m.feedrate).plan m.kind (r.machine.delta m.x m.y) = .error refusal) :
    (r.move m).1 = .error (.refused refusal) ∧ (r.move m).2.driver = r.driver ∧
      (r.move m).2.machine = r.machine.fed m.kind m.feedrate := by
  rw [move_eq, ready_machine, Machine.fed_delta, h]
  simp

theorem move_of_planned (r : Rig D) (m : Move) (plan : Plan)
    (h : (r.machine.fed m.kind m.feedrate).plan m.kind (r.machine.delta m.x m.y) = .ok plan) :
    (r.move m).2.driver = Driver.serve r.driver (.execute plan) ∧
      if (Driver.execute plan r.driver).1 = 0 then
        (r.move m).1 = .ok plan.summary ∧
          (r.move m).2.machine =
            { r.machine.fed m.kind m.feedrate with position := r.machine.target m.x m.y }
      else
        (r.move m).1 = .error (.fault ⟨.ofCode (Driver.execute plan r.driver).1⟩) ∧
          (r.move m).2.machine = r.machine.fed m.kind m.feedrate := by
  rw [move_eq, ready_machine, Machine.fed_delta, h]
  refine ⟨settle_driver _ _ _ _, ?_⟩
  simp only [settle, Status.isCompleted_ofCode, decide_eq_true_eq]
  split
  · simp
  · simp

theorem home_spec (r : Rig D) :
    r.home.2.driver = Driver.serve (Driver.serve r.driver (.setMotors true)) .home ∧
      if r.homingCode = 0 then
        r.home.1 = .ok () ∧
          r.home.2.machine = { r.machine with motors := true, position := ⟨0, 0⟩, homed := true }
      else
        r.home.1 = .error ⟨.ofCode r.homingCode⟩ ∧
          r.home.2.machine = { r.machine with motors := true } := by
  refine ⟨home_driver r, ?_⟩
  unfold homingCode
  simp only [home, setMotors_driver, Status.isCompleted_ofCode, decide_eq_true_eq]
  split
  · simp [Machine.setMotors]
  · simp [Machine.setMotors]

end Motion

/-! ## Commits -/

section Commits

variable {D : Type} [Driver D]

/-- The position that a command commits, if it commits one. -/
def commit? (r : Rig D) : Command → Option (Point Float)
  | .move kind x y feedrate =>
    match (r.machine.fed kind feedrate).plan kind (r.machine.delta x y) with
    | .error _ => none
    | .ok plan => if (Driver.execute plan r.driver).1 = 0 then some (r.machine.target x y) else none
  | .home => if r.homingCode = 0 then some ⟨0, 0⟩ else none
  | .setPosition x y => some ⟨x, y⟩
  | _ => none

theorem shutDown_position (r : Rig D) : r.shutDown.machine.position = r.machine.position := by
  rw [shutDown_machine]

theorem move_position (r : Rig D) (kind : MoveKind) (x y feedrate : Option Float) :
    (r.move ⟨kind, x, y, feedrate⟩).2.machine.position =
      (r.commit? (.move kind x y feedrate)).getD r.machine.position := by
  rw [commit?]
  cases h : (r.machine.fed kind feedrate).plan kind (r.machine.delta x y) with
  | error refusal => rw [(move_of_refused r ⟨kind, x, y, feedrate⟩ refusal h).2.2]; simp
  | ok plan =>
    obtain ⟨-, hm⟩ := move_of_planned r ⟨kind, x, y, feedrate⟩ plan h
    dsimp only at hm ⊢
    split at hm
    · rename_i hcode
      rw [if_pos hcode, hm.2]
      rfl
    · rename_i hcode
      rw [if_neg hcode, hm.2]
      simp

theorem home_position (r : Rig D) :
    r.home.2.machine.position = (r.commit? .home).getD r.machine.position := by
  obtain ⟨-, hh⟩ := home_spec r
  rw [commit?]
  split at hh
  · rename_i hcode
    rw [if_pos hcode, hh.2]
    rfl
  · rename_i hcode
    rw [if_neg hcode, hh.2]
    rfl

theorem concluded_position (r : Rig D) (line : Nat) (result : Except MotionError Unit) :
    (r.concluded line result).2.machine.position = r.machine.position := by
  cases result with
  | error e => exact shutDown_position (r.notify _)
  | ok answer => rfl

theorem perform_position (r : Rig D) (line : Nat) (command : Command) :
    (r.perform line command).2.machine.position = (r.commit? command).getD r.machine.position := by
  cases command with
  | move kind x y feedrate => rw [perform_move, concluded_position, move_position]
  | home => rw [perform_home, concluded_position, home_position]
  | stop kind => cases kind <;> exact shutDown_position r
  | laserOn power =>
    simp only [perform, armLaser]
    split <;> rfl
  | enableMotors on =>
    simp only [perform, setMotors_machine]
    rfl
  | setStepCal value =>
    cases value with
    | none => rfl
    | some value =>
      simp only [perform, setStepCal]
      split <;> rfl
  | _ => rfl

end Commits

end Rig

namespace Turn

variable {D : Type} [Driver D]

/-- The position that a turn commits; none if a stop was asked for before it. -/
def commit? (t : Turn D) : Option (Point Float) :=
  if t.before.stop.take.1 then none else t.before.commit? t.line.command

end Turn

namespace Rig

variable {D : Type} [Driver D]

theorem turn_position (r : Rig D) (line : ProgramLine) :
    (r.turn line).after.machine.position = (r.turn line).commit?.getD r.machine.position := by
  unfold Turn.commit?
  cases h : r.stop.take.1 with
  | true =>
    simp only [turn, step_stopped r line h, shutDown_position, h]
    rfl
  | false =>
    simp only [turn, step_unstopped r line h, perform_position, h]
    rfl

theorem left_position (r : Rig D) (lines : List ProgramLine) :
    (r.left (r.turns lines)).machine.position =
      ((r.turns lines).filterMap Turn.commit?).getLast?.getD r.machine.position := by
  induction lines generalizing r with
  | nil => rfl
  | cons line lines ih =>
    have hrest : ((r.turn line).after.left (if (r.turn line).goesOn then
        (r.turn line).after.turns lines else [])).machine.position =
        ((if (r.turn line).goesOn then (r.turn line).after.turns lines else []).filterMap
          Turn.commit?).getLast?.getD (r.turn line).after.machine.position := by
      split
      · exact ih _
      · rfl
    rw [turns, left_cons, hrest, turn_position, List.filterMap_cons]
    cases (r.turn line).commit? with
    | none => rfl
    | some place => simp [List.getLast?_cons]

/-- **Commit exactly on completion.** A refused move reaches no hardware. A planned move is executed
once, and its target is committed if and only if the code is 0; a fault carries the code. But for the
one speed that a feedrate word sets, a failed move changes nothing of the state. A homing commits the
origin if and only if its code is 0. So in every run a turn changes the position only by a commit, and
the position after the run is that of the last commit. -/
theorem position_changes_by_commits (r : Rig D) :
    (∀ m : Move,
      r.move m = ((r.taped.move m).1, (r.taped.move m).2.map Taped.driver) ∧
      (∃ speed, r.machine.fed m.kind m.feedrate = r.machine.withSpeed m.kind speed) ∧
      match (r.machine.fed m.kind m.feedrate).plan m.kind (r.machine.delta m.x m.y) with
      | .error refusal =>
        (r.taped.move m).1 = .error (.refused refusal) ∧
        (r.taped.move m).2.driver = ⟨r.driver, []⟩ ∧
        (r.taped.move m).2.machine = r.machine.fed m.kind m.feedrate
      | .ok plan =>
        (r.taped.move m).2.driver = ⟨(Driver.execute plan r.driver).2, [.execute plan]⟩ ∧
        if (Driver.execute plan r.driver).1 = 0 then
          (r.taped.move m).1 = .ok plan.summary ∧
          (r.taped.move m).2.machine =
            { r.machine.fed m.kind m.feedrate with
              position := ⟨r.machine.position.x + (r.machine.delta m.x m.y).x,
                r.machine.position.y + (r.machine.delta m.x m.y).y⟩ }
        else
          (∃ fault : MotionFault, (r.taped.move m).1 = .error (.fault fault) ∧
            fault.status.code = (Driver.execute plan r.driver).1) ∧
          (r.taped.move m).2.machine = r.machine.fed m.kind m.feedrate) ∧
    (r.home = (r.taped.home.1, r.taped.home.2.map Taped.driver) ∧
      r.taped.home.2.driver.tape = [.setMotors true, .home] ∧
      if r.homingCode = 0 then
        r.home.1 = .ok () ∧
        r.home.2.machine = { r.machine with motors := true, position := ⟨0, 0⟩, homed := true }
      else
        (∃ fault : MotionFault, r.home.1 = .error fault ∧ fault.status.code = r.homingCode) ∧
        r.home.2.machine = { r.machine with motors := true }) ∧
    ∀ program : Program,
      (∀ t ∈ r.turns program.lines,
        t.after.machine.position = t.commit?.getD t.before.machine.position) ∧
      (r.run program).2.machine.position =
        ((r.turns program.lines).filterMap Turn.commit?).getLast?.getD r.machine.position := by
  refine ⟨fun m => ⟨map_move Taped.mirror r.taped m, Machine.fed_frame _ _ _, ?_⟩,
    ⟨map_home Taped.mirror r.taped, ?_, ?_⟩, fun program => ⟨?_, ?_⟩⟩
  · split
    · rename_i refusal h
      exact move_of_refused r.taped m refusal h
    · rename_i plan h
      obtain ⟨hdriver, hm⟩ := move_of_planned r.taped m plan h
      refine ⟨hdriver, ?_⟩
      split at hm
      · have hcode : (Driver.execute plan r.driver).1 = 0 := by assumption
        rw [if_pos hcode]
        exact hm
      · have hcode : ¬ (Driver.execute plan r.driver).1 = 0 := by assumption
        rw [if_neg hcode]
        exact ⟨⟨_, hm.1, Status.code_ofCode _⟩, hm.2⟩
  · rw [home_driver]
    rfl
  · obtain ⟨-, hh⟩ := home_spec r
    split at hh
    · rename_i hcode
      rw [if_pos hcode]
      exact hh
    · rename_i hcode
      rw [if_neg hcode]
      exact ⟨⟨_, hh.1, Status.code_ofCode _⟩, hh.2⟩
  · intro t ht
    rw [(mem_turns ht).1]
    exact turn_position t.before t.line
  · rw [run_eq]
    exact left_position r program.lines

/-- A cut that runs and a homing that does not, with a position set in between. -/
theorem position_after_faulted_homing :
    let r : Rig Handle :=
      { machine := .powerOn {}, driver := ⟨{ settings := {}, claimed := true, injected := [0, 37] }, true⟩ }
    let program : Program :=
      ⟨[⟨1, .move .controlled (some 1) none none⟩, ⟨2, .setPosition 7 8⟩, ⟨3, .home⟩]⟩
    let cut := r.turn ⟨1, .move .controlled (some 1) none none⟩
    cut ∈ r.turns program.lines ∧ cut.after.machine.position = ⟨1, 0⟩ ∧
      (r.run program).2.machine.position = ⟨7, 8⟩ := by
  intro r program cut
  have hcut : cut ∈ r.turns program.lines := List.mem_cons_self
  have hrun := (position_changes_by_commits r).2.2 program
  refine ⟨hcut, ?_, ?_⟩
  · rw [hrun.1 cut hcut]
    decide +kernel
  · rw [hrun.2]
    decide +kernel

end Rig

end Engraver
