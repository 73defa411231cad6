import Engraver.Proofs.Machine.Position

/-!
# Counters and log

A plan counts when the hardware was given it, and as a fault if it was not completed; a move without a plan and
a homing that failed are faults too, and nothing else counts. Nothing reads counters or log, so a rig that
carries those of an earlier time does all that it would do without them.
-/

namespace Engraver

namespace MotionStats

/-- The counters of an earlier and of a later time, taken together. -/
def add (earlier later : MotionStats) : MotionStats where
  moves := earlier.moves + later.moves
  steps := earlier.steps + later.steps
  laserSteps := earlier.laserSteps + later.laserSteps
  faults := earlier.faults + later.faults
  last := later.last.or earlier.last

/-- What a plan counts that the hardware was given. -/
def ofPlan (summary : Summary) (completed : Bool) : MotionStats where
  moves := 1
  steps := if completed then summary.steps else 0
  laserSteps := if completed then summary.laserSteps else 0
  faults := if completed then 0 else 1
  last := some summary

/-- What a motion counts that gave the hardware no plan. -/
def oneFault : MotionStats where
  faults := 1

@[simp] theorem add_new (stats : MotionStats) : stats.add {} = stats := by
  simp [add]

theorem add_assoc (a b c : MotionStats) : (a.add b).add c = a.add (b.add c) := by
  simp [add, Nat.add_assoc, Option.or_assoc]

end MotionStats

namespace Rig

/-! ## What counts -/

section Counting

variable {D : Type}

@[simp] theorem notifyIf_stats (r : Rig D) (applies : Bool) (notice : Notice) :
    (r.notifyIf applies notice).stats = r.stats := by
  unfold notifyIf
  split <;> rfl

theorem ready_stats (r : Rig D) (m : Move) : (r.ready m).stats = r.stats := by
  unfold ready applyFeedrate
  split <;> simp

theorem settle_stats (r : Rig D) (target : Point Float) (summary : Summary) (status : Status) :
    (r.settle target summary status).2.stats = r.stats.add (.ofPlan summary status.isCompleted) := by
  unfold settle
  split <;> simp [MotionStats.add, MotionStats.ofPlan, fault, notify, *]

variable [Driver D]

theorem setMotors_stats (r : Rig D) (on : Bool) : (r.setMotors on).stats = r.stats := by
  simp [setMotors]

theorem shutDown_stats (r : Rig D) : r.shutDown.stats = r.stats :=
  setMotors_stats r.laserOff false

theorem home_stats (r : Rig D) :
    r.home.2.stats = if r.homingCode = 0 then r.stats else r.stats.add .oneFault := by
  unfold homingCode
  simp only [home, setMotors_driver, Status.isCompleted_ofCode, decide_eq_true_eq]
  split <;> simp [setMotors_stats, fault, notify, MotionStats.add, MotionStats.oneFault]

theorem move_stats_of_refused (r : Rig D) (m : Move) (refusal : Refusal Float)
    (h : (r.machine.fed m.kind m.feedrate).plan m.kind (r.machine.delta m.x m.y) = .error refusal) :
    (r.move m).2.stats = r.stats.add .oneFault := by
  rw [move_eq, ready_machine, Machine.fed_delta, h]
  simp [fault, notify, ready_stats, MotionStats.add, MotionStats.oneFault]

theorem move_stats_of_planned (r : Rig D) (m : Move) (plan : Plan)
    (h : (r.machine.fed m.kind m.feedrate).plan m.kind (r.machine.delta m.x m.y) = .ok plan) :
    (r.move m).2.stats =
      r.stats.add (.ofPlan plan.summary (decide ((Driver.execute plan r.driver).1 = 0))) := by
  rw [move_eq, ready_machine, Machine.fed_delta, h]
  simp only [settle_stats, ready_stats, Status.isCompleted_ofCode]

theorem concluded_stats (r : Rig D) (line : Nat) (result : Except MotionError Unit) :
    (r.concluded line result).2.stats = r.stats := by
  cases result with
  | error e => exact shutDown_stats (r.notify _)
  | ok done => rfl

theorem perform_stats (r : Rig D) (line : Nat) (command : Command)
    (hmove : ∀ kind x y feedrate, command ≠ .move kind x y feedrate) (hhome : command ≠ .home) :
    (r.perform line command).2.stats = r.stats := by
  cases command with
  | move kind x y feedrate => exact absurd rfl (hmove kind x y feedrate)
  | home => exact absurd rfl hhome
  | stop kind => cases kind <;> exact shutDown_stats r
  | laserOn power =>
    simp only [perform, armLaser]
    split <;> rfl
  | enableMotors on => exact setMotors_stats r on
  | setStepCal value =>
    simp only [perform, setStepCal]
    split
    · rfl
    · split <;> rfl
  | _ => rfl

end Counting

/-! ## Counters and log of an earlier time -/

section Carrying

variable {D : Type}

/-- The rig with counters and log of an earlier time under its own. -/
def carry (r : Rig D) (stats : MotionStats) (log : List Notice) : Rig D :=
  { r with stats := stats.add r.stats, log := log ++ r.log }

variable [Driver D] (stats : MotionStats) (log : List Notice)

theorem carry_view : View id (fun r : Rig D => r.carry stats log) where
  likeness := Driver.Mirror.id.toLikeness
  change _ _ _ := rfl
  notify r notice := by simp [carry, notify]
  fault r notice := by simp [carry, fault, notify, MotionStats.add, Nat.add_assoc]
  settle r target summary status := by
    unfold settle
    split <;> simp [carry, fault, notify, MotionStats.add, Nat.add_assoc]

end Carrying

end Rig

end Engraver
