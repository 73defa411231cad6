import Engraver.Proofs.Gcode.Grammar
import Engraver.Proofs.Machine.Position
import Engraver.Proofs.Motion.Stepping
import Engraver.Proofs.Number.Range

/-!
# Calibration and speeds

Calibration and speeds are positive to begin with, and whatever a program asks for, they stay so: a feedrate
that is not positive is ignored, and so is one that comes to nothing in millimetres per second. So there is no
plan of any steps without time.
-/

namespace Engraver

open Double (IsPositive)

theorem Command.IsFinite.feedrate {kind : MoveKind} {x y feedrate : Option Float}
    (h : (Command.move kind x y feedrate).IsFinite) : ∀ value ∈ feedrate, value.isFinite = true :=
  fun value hvalue => h value (List.mem_append_right _ (Option.mem_toList.mpr hvalue))

namespace Machine

/-- The calibration and both speeds are positive numbers. -/
structure IsUsable (m : Machine) : Prop where
  stepCal : IsPositive m.stepCal
  cutSpeed : IsPositive m.cutSpeed
  travelSpeed : IsPositive m.travelSpeed

/-! ## Feedrates -/

theorem speedOr_feedrate {current feedrate : Float} (hcurrent : IsPositive current)
    (hfinite : feedrate.isFinite = true) (hpos : ¬ feedrate ≤ 0) :
    IsPositive (speedOr current (some (feedrate / 60.0))) := by
  have hfeedrate : IsPositive feedrate := ⟨hfinite, Double.pos_of_not_le hfinite hpos⟩
  unfold speedOr
  dsimp only
  split
  · rename_i hne
    exact hfeedrate.div (by decide +kernel) (by decide +kernel) hne
  · exact hcurrent

theorem IsUsable.fed {m : Machine} (h : m.IsUsable) (kind : MoveKind) {feedrate : Option Float}
    (hfinite : ∀ value ∈ feedrate, value.isFinite = true) : (m.fed kind feedrate).IsUsable := by
  cases feedrate with
  | none => exact h
  | some feedrate =>
    rw [Machine.fed, withFeedrate]
    split
    · exact h
    · rename_i hpos
      split
      · exact ⟨h.stepCal, speedOr_feedrate h.cutSpeed (hfinite _ rfl) hpos, h.travelSpeed⟩
      · exact ⟨h.stepCal, h.cutSpeed, speedOr_feedrate h.travelSpeed (hfinite _ rfl) hpos⟩

/-- The machine with the calibration and the speeds that a command sets. -/
def tuned (m : Machine) : Command → Machine
  | .move kind _ _ feedrate => m.fed kind feedrate
  | .setStepCal (some value) => if 0 < value then { m with stepCal := value } else m
  | _ => m

theorem IsUsable.tuned {m : Machine} (h : m.IsUsable) {command : Command} (hfinite : command.IsFinite) :
    (m.tuned command).IsUsable := by
  cases command with
  | move kind x y feedrate => exact h.fed kind hfinite.feedrate
  | setStepCal value =>
    cases value with
    | none => exact h
    | some value =>
      rw [Machine.tuned]
      split
      · rename_i hpos
        exact ⟨⟨hfinite value (List.mem_singleton_self value), hpos⟩, h.cutSpeed, h.travelSpeed⟩
      · exact h
  | _ => exact h

/-! ## Plans -/

/-- A request that a command may make: its only plan is that of its displacement, at the speed it goes at. -/
def Allows (m : Machine) (command : Command) (q : Request) : Prop :=
  ∀ plan, q = .execute plan → ∃ kind x y feedrate, command = .move kind x y feedrate ∧
    (m.fed kind feedrate).plan kind (m.delta x y) = .ok plan

theorem allows_of_quiet (m : Machine) (command : Command) {q : Request} (hq : q.isQuiet = true) :
    m.Allows command q := by
  rintro plan rfl
  cases hq

/-- The time of a plan is not cut short for want of a speed. -/
theorem IsUsable.plan_duration {m : Machine} (h : m.IsUsable) {kind : MoveKind} {delta : Point Float}
    {plan : Plan} (hplan : m.plan kind delta = .ok plan) (hsteps : plan.steps ≠ []) :
    let speed := if m.cuts kind then m.cutSpeed else m.travelSpeed
    0 < speed ∧ plan.duration = Double.roundToCount (Double.length delta.x delta.y / speed * 1e6) := by
  intro speed
  have hspeed : 0 < speed := by
    simp only [speed]
    split
    · exact h.cutSpeed.2
    · exact h.travelSpeed.2
  have htime : plan.duration = (m.stroke kind delta).time := Stroke.plan_duration hplan hsteps
  exact ⟨hspeed, htime.trans (if_pos hspeed)⟩

end Machine

variable {D : Type} [Driver D]

namespace Rig

/-! ## What a command does to the machine -/

theorem concluded_machine (r : Rig D) (line : Nat) (result : Except MotionError Unit) :
    ∃ laser motors homed, (r.concluded line result).2.machine = { r.machine with laser, motors, homed } := by
  cases result with
  | error e => exact ⟨_, _, _, by simp only [concluded, abort, shutDown_machine]; rfl⟩
  | ok answer => exact ⟨_, _, _, rfl⟩

theorem move_machine (r : Rig D) (m : Move) :
    ∃ position, (r.move m).2.machine = { r.machine.fed m.kind m.feedrate with position } := by
  cases hplan : (r.machine.fed m.kind m.feedrate).plan m.kind (r.machine.delta m.x m.y) with
  | error refusal => exact ⟨_, (move_of_refused r m refusal hplan).2.2⟩
  | ok plan =>
    have hm := (move_of_planned r m plan hplan).2
    split at hm <;> exact ⟨_, hm.2⟩

theorem home_machine (r : Rig D) :
    ∃ position motors homed, r.home.2.machine = { r.machine with position, motors, homed } := by
  have hm := (home_spec r).2
  split at hm <;> exact ⟨_, _, _, hm.2⟩

theorem perform_machine (r : Rig D) (line : Nat) (command : Command) :
    ∃ position mode laser power homed motors, (r.perform line command).2.machine =
      { r.machine.tuned command with position, mode, laser, power, homed, motors } := by
  cases command with
  | move kind x y feedrate =>
    rw [perform_move]
    obtain ⟨laser, motors, homed, hend⟩ := concluded_machine (r.move ⟨kind, x, y, feedrate⟩).2 line
      ((r.move ⟨kind, x, y, feedrate⟩).1.map fun _ => ())
    obtain ⟨position, hmove⟩ := move_machine r ⟨kind, x, y, feedrate⟩
    rw [hend, hmove]
    exact ⟨_, _, _, _, _, _, rfl⟩
  | home =>
    rw [perform_home]
    obtain ⟨laser, motors, homed, hend⟩ := concluded_machine r.home.2 line (r.home.1.mapError .fault)
    obtain ⟨position, motors', homed', hhome⟩ := home_machine r
    rw [hend, hhome]
    exact ⟨_, _, _, _, _, _, rfl⟩
  | stop kind =>
    cases kind <;> simp only [perform, shutDown_machine] <;> exact ⟨_, _, _, _, _, _, rfl⟩
  | laserOn power =>
    simp only [perform, armLaser]
    split <;> exact ⟨_, _, _, _, _, _, rfl⟩
  | enableMotors on =>
    simp only [perform, setMotors_machine]
    exact ⟨_, _, _, _, _, _, rfl⟩
  | setStepCal value =>
    cases value with
    | none => exact ⟨_, _, _, _, _, _, rfl⟩
    | some value =>
      simp only [perform, setStepCal, Machine.tuned]
      split <;> exact ⟨_, _, _, _, _, _, rfl⟩
  | _ => exact ⟨_, _, _, _, _, _, rfl⟩

theorem step_machine {M : Machine → Prop}
    (hM : ∀ m position mode laser power homed motors, M m →
      M { m with position, mode, laser, power, homed, motors })
    (r : Rig D) (line : ProgramLine) (h : M r.machine) (htuned : M (r.machine.tuned line.command)) :
    M (r.step line).2.machine := by
  cases hs : r.stop.take.1 with
  | true =>
    rw [step_stopped r line hs, shutDown_machine]
    exact hM r.machine r.machine.position r.machine.mode false r.machine.power false false h
  | false =>
    rw [step_unstopped r line hs]
    obtain ⟨position, mode, laser, power, homed, motors, hm⟩ := perform_machine r.looked line.line line.command
    rw [hm]
    exact hM _ _ _ _ _ _ _ htuned

theorem step_usable (r : Rig D) (line : ProgramLine) (h : r.machine.IsUsable)
    (hfinite : line.command.IsFinite) : (r.step line).2.machine.IsUsable :=
  step_machine (fun _ _ _ _ _ _ _ hm => ⟨hm.stepCal, hm.cutSpeed, hm.travelSpeed⟩) r line h (h.tuned hfinite)

/-! ## What a command asks of the hardware -/

theorem reaches_of_quiet (m : Machine) (command : Command) {d e : D} (h : Driver.Quiet d e) :
    Driver.Reaches (m.Allows command) d e :=
  h.mono fun _ hq => m.allows_of_quiet command hq

theorem perform_requests (r : Rig D) (line : Nat) (command : Command) :
    Driver.Reaches (r.machine.Allows command) r.driver (r.perform line command).2.driver := by
  by_cases hmove : ∃ kind x y feedrate, command = .move kind x y feedrate
  · obtain ⟨kind, x, y, feedrate, rfl⟩ := hmove
    rw [perform_move]
    have hend := reaches_of_quiet r.machine (.move kind x y feedrate)
      (concluded_quiet (r.move ⟨kind, x, y, feedrate⟩).2 line
        ((r.move ⟨kind, x, y, feedrate⟩).1.map fun _ => ()))
    cases hplan : (r.machine.fed kind feedrate).plan kind (r.machine.delta x y) with
    | error refusal => rwa [(move_of_refused r ⟨kind, x, y, feedrate⟩ refusal hplan).2.1] at hend
    | ok plan =>
      have hdriver := (move_of_planned r ⟨kind, x, y, feedrate⟩ plan hplan).1
      rw [hdriver] at hend
      refine (Driver.reaches_serve r.driver (.execute plan) ?_).trans hend
      rintro plan' hsame
      cases hsame
      exact ⟨kind, x, y, feedrate, rfl, hplan⟩
  · exact reaches_of_quiet _ _ (perform_quiet r line command (by simpa using hmove))

theorem step_requests (r : Rig D) (line : ProgramLine) :
    Driver.Reaches (r.machine.Allows line.command) r.driver (r.step line).2.driver := by
  cases hs : r.stop.take.1 with
  | true =>
    rw [step_stopped r line hs]
    exact reaches_of_quiet _ _ (shutDown_quiet (r.looked.notify (.stopRequested line.line)))
  | false =>
    rw [step_unstopped r line hs]
    exact perform_requests r.looked line.line line.command

end Rig

/-! ## On the tape -/

def Request.plan? : Request → Option Plan
  | execute plan => some plan
  | _ => none

theorem Taped.plans_of_quiet {t t' : Taped D} (h : Driver.Quiet t t') :
    t'.tape.filterMap Request.plan? = t.tape.filterMap Request.plan? := by
  obtain ⟨new, htape, hnew⟩ := Taped.tape_of_reaches h
  have hnone : new.filterMap Request.plan? = [] := by
    rw [List.filterMap_eq_nil_iff]
    intro q hq
    cases q with
    | execute plan => cases hnew _ hq
    | _ => rfl
  rw [htape, List.filterMap_append, hnone, List.append_nil]

def Turn.plans (t : Turn (Taped D)) : List Plan :=
  (t.after.driver.tape.drop t.before.driver.tape.length).filterMap Request.plan?

theorem Turn.plans_allowed {t : Turn (Taped D)} {m : Machine} {command : Command}
    (h : Driver.Reaches (m.Allows command) t.before.driver t.after.driver) :
    t.before.driver.tape <+: t.after.driver.tape ∧ ∀ plan ∈ t.plans, m.Allows command (.execute plan) := by
  obtain ⟨new, htape, hnew⟩ := Taped.tape_of_reaches h
  refine ⟨⟨new, htape.symm⟩, ?_⟩
  intro plan hplan
  rw [Turn.plans, htape, List.drop_left] at hplan
  obtain ⟨q, hq, hsome⟩ := List.mem_filterMap.mp hplan
  cases q <;> cases hsome
  exact hnew _ hq

end Engraver
