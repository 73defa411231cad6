import Engraver.Proofs.Machine.Turns

/-!
# A machine and the contract of its hardware

A machine knows its hardware only through the contract. So on hardware seen through a mirror it does
the same, and whatever it does to its hardware is done by requests, none of which touches the claim.
-/

namespace Engraver

/-- Where a move is to end. -/
def Machine.target (m : Machine) (x y : Option Float) : Point Float :=
  ⟨m.position.x + (m.delta x y).x, m.position.y + (m.delta x y).y⟩

theorem Machine.plan_fits {m : Machine} {kind : MoveKind} {delta : Point Float} {plan : Plan}
    (h : m.plan kind delta = .ok plan) : plan.Fits :=
  Stroke.plan_fits h

namespace Rig

/-! ## The log changes nothing else -/

section Log

variable {D : Type} (r : Rig D) (notice : Notice) (applies : Bool)

@[simp] theorem notify_machine : (r.notify notice).machine = r.machine := rfl
@[simp] theorem notify_driver : (r.notify notice).driver = r.driver := rfl
@[simp] theorem notify_stop : (r.notify notice).stop = r.stop := rfl
@[simp] theorem fault_machine : (r.fault notice).machine = r.machine := rfl
@[simp] theorem fault_driver : (r.fault notice).driver = r.driver := rfl

@[simp] theorem notifyIf_machine : (r.notifyIf applies notice).machine = r.machine := by
  unfold notifyIf; split <;> rfl

@[simp] theorem notifyIf_driver : (r.notifyIf applies notice).driver = r.driver := by
  unfold notifyIf; split <;> rfl

@[simp] theorem applyFeedrate_driver (kind : MoveKind) (feedrate : Option Float) :
    (r.applyFeedrate kind feedrate).driver = r.driver := by
  cases feedrate <;> simp [applyFeedrate]

end Log

/-! ## A move, step by step -/

section Move

variable {D : Type}

/-- The rig about to plan a move: the feedrate is set, and a target off the bed is in the log. -/
def ready (r : Rig D) (m : Move) : Rig D :=
  let r := r.applyFeedrate m.kind m.feedrate
  r.notifyIf (isOutside r.machine.bed (r.machine.target m.x m.y))
    (.outsideBed (r.machine.target m.x m.y) r.machine.bed)

@[simp] theorem ready_driver (r : Rig D) (m : Move) : (r.ready m).driver = r.driver := by
  simp [ready]

theorem settle_driver (r : Rig D) (target : Point Float) (summary : Summary) (status : Status) :
    (r.settle target summary status).2.driver = r.driver := by
  unfold settle
  split <;> rfl

/-- A move is planned first; only a plan reaches the hardware. -/
theorem move_eq [Driver D] (r : Rig D) (m : Move) :
    r.move m =
      match (r.ready m).machine.plan m.kind ((r.ready m).machine.delta m.x m.y) with
      | .error refusal =>
        (.error (.refused refusal),
          (r.ready m).fault (.moveRefused ((r.ready m).machine.target m.x m.y) refusal))
      | .ok plan =>
        { r.ready m with driver := (Driver.execute plan r.driver).2 }.settle
          ((r.ready m).machine.target m.x m.y) plan.summary (.ofCode (Driver.execute plan r.driver).1) := by
  simp only [move, ready, notifyIf_machine, notifyIf_driver, applyFeedrate_driver]
  generalize r.applyFeedrate m.kind m.feedrate = fed
  cases fed.machine.plan m.kind (fed.machine.delta m.x m.y) <;> rfl

end Move

section Conclusion

variable {D : Type} [Driver D]

/-- The end of a motion at a line: the run goes on, or it is aborted. -/
def concluded (r : Rig D) (line : Nat) : Except MotionError Unit → Except ExecutionError Flow × Rig D
  | .ok () => (.ok (.next none), r)
  | .error e => r.abort line e

theorem perform_move (r : Rig D) (line : Nat) (kind : MoveKind) (x y feedrate : Option Float) :
    r.perform line (.move kind x y feedrate) =
      (r.move ⟨kind, x, y, feedrate⟩).2.concluded line
        ((r.move ⟨kind, x, y, feedrate⟩).1.map fun _ => ()) := by
  rw [perform]
  rcases r.move ⟨kind, x, y, feedrate⟩ with ⟨_ | _, after⟩ <;> rfl

theorem perform_home (r : Rig D) (line : Nat) :
    r.perform line .home = r.home.2.concluded line (r.home.1.mapError .fault) := by
  rw [perform]
  rcases r.home with ⟨_ | _, after⟩ <;> rfl

theorem concluded_error (r : Rig D) (line : Nat) (result : Except MotionError Unit) (e : ExecutionError)
    (h : (r.concluded line result).1 = .error e) : ∃ cause, e = .ofMotion line cause := by
  cases result with
  | error cause =>
    cases h
    exact ⟨cause, rfl⟩
  | ok done => cases h

theorem perform_error (r : Rig D) (line : Nat) (command : Command) (e : ExecutionError)
    (h : (r.perform line command).1 = .error e) : ∃ cause, e = .ofMotion line cause := by
  cases command with
  | move kind x y feedrate =>
    rw [perform_move] at h
    exact concluded_error _ line _ e h
  | home =>
    rw [perform_home] at h
    exact concluded_error _ line _ e h
  | stop kind => cases kind <;> cases h
  | _ => cases h

end Conclusion

/-! ## Views -/

section View

variable {D E : Type} [Driver D] [Driver E]

/-- `f` shows the rig with the hardware that `g` shows, and the machine as it is; it shows every count and
every line in the log. -/
structure View (g : D → E) (f : Rig D → Rig E) : Prop where
  likeness : Driver.Likeness g
  change : ∀ r machine driver, f { r with machine, driver } = { f r with machine, driver := g driver }
  notify : ∀ r notice, f (r.notify notice) = (f r).notify notice
  fault : ∀ r notice, f (r.fault notice) = (f r).fault notice
  settle : ∀ r target summary status, (f r).settle target summary status =
    ((r.settle target summary status).1, f (r.settle target summary status).2)

namespace View

variable {g : D → E} {f : Rig D → Rig E} (h : View g f)
include h

theorem machine (r : Rig D) : (f r).machine = r.machine :=
  congrArg Rig.machine (h.change r r.machine r.driver)

theorem driver (r : Rig D) : (f r).driver = g r.driver :=
  congrArg Rig.driver (h.change r r.machine r.driver)

theorem withMachine (r : Rig D) (machine : Machine) : { f r with machine } = f { r with machine } := by
  rw [h.change r machine r.driver, ← h.driver r]

theorem withDriver (r : Rig D) (driver : D) : { f r with driver := g driver } = f { r with driver } := by
  rw [h.change r r.machine driver, ← h.machine r]

theorem notifyIf (r : Rig D) (applies : Bool) (notice : Notice) :
    (f r).notifyIf applies notice = f (r.notifyIf applies notice) := by
  unfold Rig.notifyIf
  split
  · exact (h.notify r notice).symm
  · rfl

theorem ready (r : Rig D) (m : Move) : (f r).ready m = f (r.ready m) := by
  have hfed : (f r).applyFeedrate m.kind m.feedrate = f (r.applyFeedrate m.kind m.feedrate) := by
    cases m.feedrate with
    | none => rfl
    | some feedrate =>
      simp only [applyFeedrate, h.machine, h.withMachine]
      exact h.notifyIf _ _ _
  simp only [Rig.ready, hfed, h.machine]
  exact h.notifyIf _ _ _

theorem setMotors (r : Rig D) (on : Bool) : (f r).setMotors on = f (r.setMotors on) := by
  simp only [Rig.setMotors, h.machine, h.driver, h.likeness.setMotors, ← h.change]
  exact h.notifyIf _ _ _

theorem laserOff (r : Rig D) : (f r).laserOff = f r.laserOff := by
  simp only [Rig.laserOff, h.machine, h.driver, h.likeness.laserOff, ← h.change]

theorem shutDown (r : Rig D) : (f r).shutDown = f r.shutDown := by
  rw [Rig.shutDown, h.laserOff, h.setMotors]
  rfl

theorem home (r : Rig D) : (f r).home = (r.home.1, f r.home.2) := by
  simp only [Rig.home, h.setMotors, h.machine, h.driver, h.likeness.home]
  split
  · exact congrArg (Prod.mk _) (h.change _ _ _).symm
  · exact congrArg (Prod.mk _) ((congrArg (Rig.fault · _) (h.change _ _ _).symm).trans (h.fault _ _).symm)

theorem move (r : Rig D) (m : Move) : (f r).move m = ((r.move m).1, f (r.move m).2) := by
  rw [move_eq, move_eq, h.ready, h.driver]
  generalize r.ready m = ready
  simp only [h.machine, h.likeness.execute]
  cases ready.machine.plan m.kind (ready.machine.delta m.x m.y) with
  | error refusal => exact congrArg (Prod.mk _) (h.fault _ _).symm
  | ok plan =>
    dsimp only
    rw [← h.change]
    exact h.settle _ _ _ _

theorem concluded (r : Rig D) (line : Nat) (result : Except MotionError Unit) :
    (f r).concluded line result = ((r.concluded line result).1, f (r.concluded line result).2) := by
  cases result with
  | error e =>
    simp only [Rig.concluded, abort, ← h.notify, h.shutDown]
  | ok done => rfl

theorem perform (r : Rig D) (line : Nat) (command : Command) :
    (f r).perform line command = ((r.perform line command).1, f (r.perform line command).2) := by
  cases command with
  | move kind x y feedrate => rw [perform_move, perform_move, h.move, h.concluded]
  | home => rw [perform_home, perform_home, h.home, h.concluded]
  | stop kind => cases kind <;> exact congrArg (Prod.mk _) (h.shutDown r)
  | laserOn power =>
    simp only [Rig.perform, armLaser, h.machine, h.withMachine]
    split
    · rfl
    · exact congrArg (Prod.mk _) (h.laserOff _)
  | laserOff => exact congrArg (Prod.mk _) (h.laserOff r)
  | enableMotors on => exact congrArg (Prod.mk _) (h.setMotors r on)
  | setStepCal value =>
    cases value with
    | none => simp only [Rig.perform, setStepCal, h.machine, h.notify]
    | some value =>
      simp only [Rig.perform, setStepCal, h.machine, h.withMachine, ← h.notify]
      split <;> rfl
  | setMode mode => simp only [Rig.perform, h.machine, h.withMachine]
  | setPosition x y => simp only [Rig.perform, h.machine, h.withMachine]
  | queryPosition => simp only [Rig.perform, h.machine]
  | queryVersion => rfl
  | queryEndstops => simp only [Rig.perform, h.driver, h.likeness.readSwitches, h.withDriver]

theorem step (hstop : ∀ r, (f r).stop = r.stop) (hlooked : ∀ r, (f r).looked = f r.looked) (r : Rig D)
    (line : ProgramLine) : (f r).step line = ((r.step line).1, f (r.step line).2) := by
  cases hs : r.stop.take.1 with
  | true =>
    rw [step_stopped r line hs, step_stopped (f r) line (by rw [hstop, hs]), hlooked, ← h.notify, h.shutDown]
  | false =>
    rw [step_unstopped r line hs, step_unstopped (f r) line (by rw [hstop, hs]), hlooked, h.perform]

end View

end View

/-! ## Mirrors -/

section Mirror

variable {D E : Type}

/-- The same rig on its hardware as a mirror shows it. -/
def map (f : D → E) (r : Rig D) : Rig E :=
  r.withDriver (f r.driver)

def mapTurn (f : D → E) (t : Turn D) : Turn E :=
  ⟨t.line, t.before.map f, t.flow, t.after.map f⟩

@[simp] theorem map_machine (f : D → E) (r : Rig D) : (r.map f).machine = r.machine := rfl
@[simp] theorem map_driver (f : D → E) (r : Rig D) : (r.map f).driver = f r.driver := rfl

variable [Driver D] [Driver E] {f : D → E}

theorem map_view (hf : Driver.Likeness f) : View f (map f) where
  likeness := hf
  change _ _ _ := rfl
  notify _ _ := rfl
  fault _ _ := rfl
  settle r target summary status := by
    unfold settle
    split <;> rfl

theorem map_home (hf : Driver.Mirror f) (r : Rig D) :
    (r.map f).home = (r.home.1, r.home.2.map f) :=
  (map_view hf.toLikeness).home r

theorem map_move (hf : Driver.Mirror f) (r : Rig D) (m : Move) :
    (r.map f).move m = ((r.move m).1, (r.move m).2.map f) :=
  (map_view hf.toLikeness).move r m

theorem map_step (hf : Driver.Mirror f) (r : Rig D) (line : ProgramLine) :
    (r.map f).step line = ((r.step line).1, (r.step line).2.map f) :=
  (map_view hf.toLikeness).step (fun _ => rfl) (fun _ => rfl) r line

theorem map_turns (hf : Driver.Mirror f) (r : Rig D) (lines : List ProgramLine) :
    (r.map f).turns lines = (r.turns lines).map (mapTurn f) :=
  turns_view (map_step hf) r lines

theorem map_run (hf : Driver.Mirror f) (r : Rig D) (program : Program) :
    (r.map f).run program = ((r.run program).1, (r.run program).2.map f) :=
  runLines_view (map_step hf) r [] program.lines

end Mirror

/-! ## Requests -/

section Requests

variable {D : Type} [Driver D]

theorem setMotors_driver (r : Rig D) (on : Bool) :
    (r.setMotors on).driver = Driver.serve r.driver (.setMotors on) := by
  simp [setMotors, Driver.serve]

theorem shutDown_driver (r : Rig D) :
    r.shutDown.driver = Driver.serve (Driver.serve r.driver .laserOff) (.setMotors false) := by
  rw [shutDown, setMotors_driver]
  rfl

theorem home_driver (r : Rig D) :
    r.home.2.driver = Driver.serve (Driver.serve r.driver (.setMotors true)) .home := by
  rw [← setMotors_driver]
  unfold home
  dsimp only
  split <;> rfl

theorem shutDown_quiet (r : Rig D) : Driver.Quiet r.driver r.shutDown.driver := by
  rw [shutDown_driver]
  exact (Driver.quiet_serve _ .laserOff rfl).trans (Driver.quiet_serve _ (.setMotors false) rfl)

theorem home_quiet (r : Rig D) : Driver.Quiet r.driver r.home.2.driver := by
  rw [home_driver]
  exact (Driver.quiet_serve _ (.setMotors true) rfl).trans (Driver.quiet_serve _ .home rfl)

theorem concluded_quiet (r : Rig D) (line : Nat) (result : Except MotionError Unit) :
    Driver.Quiet r.driver (r.concluded line result).2.driver := by
  cases result with
  | error e => exact shutDown_quiet (r.notify _)
  | ok answer => exact Driver.Reaches.refl _ _

theorem perform_quiet (r : Rig D) (line : Nat) (command : Command)
    (hmove : ∀ kind x y feedrate, command ≠ .move kind x y feedrate) :
    Driver.Quiet r.driver (r.perform line command).2.driver := by
  cases command with
  | move kind x y feedrate => exact absurd rfl (hmove kind x y feedrate)
  | home =>
    rw [perform_home]
    exact (home_quiet r).trans (concluded_quiet _ _ _)
  | stop kind => cases kind <;> exact shutDown_quiet r
  | laserOn power =>
    simp only [perform, armLaser]
    split
    · exact Driver.Reaches.refl _ _
    · exact Driver.quiet_serve r.driver .laserOff rfl
  | laserOff => exact Driver.quiet_serve r.driver .laserOff rfl
  | enableMotors on =>
    simp only [perform, setMotors_driver]
    exact Driver.quiet_serve r.driver (.setMotors on) rfl
  | setStepCal value =>
    cases value with
    | none => exact Driver.Reaches.refl _ _
    | some value =>
      simp only [perform, setStepCal]
      split <;> exact Driver.Reaches.refl _ _
  | queryEndstops => exact Driver.quiet_serve r.driver .readSwitches rfl
  | _ => exact Driver.Reaches.refl _ _

theorem move_worked (r : Rig D) (m : Move) : Driver.Worked r.driver (r.move m).2.driver := by
  rw [move_eq]
  split
  · rw [fault_driver, ready_driver]
    exact Driver.Reaches.refl _ _
  · rename_i plan hplan
    rw [settle_driver]
    exact Driver.worked_serve r.driver (.execute plan) rfl (Machine.plan_fits hplan)

theorem perform_worked (r : Rig D) (line : Nat) (command : Command) :
    Driver.Worked r.driver (r.perform line command).2.driver := by
  cases command with
  | move kind x y feedrate =>
    rw [perform_move]
    exact (move_worked r _).trans (concluded_quiet _ _ _).worked
  | _ => exact (perform_quiet r line _ (by simp)).worked

theorem step_worked (r : Rig D) (line : ProgramLine) : Driver.Worked r.driver (r.step line).2.driver := by
  cases h : r.stop.take.1 with
  | true =>
    rw [step_stopped r line h]
    exact (shutDown_quiet (r.looked.notify _)).worked
  | false =>
    rw [step_unstopped r line h]
    exact perform_worked r.looked _ _

theorem turn_worked {r : Rig D} {lines : List ProgramLine} {t : Turn D} (h : t ∈ r.turns lines) :
    Driver.Worked r.driver t.before.driver := by
  apply (turns_keep (fun r' => Driver.Worked r.driver r'.driver) _ (Driver.Reaches.refl _ _) h).1
  intro r' line hw
  exact hw.trans (step_worked r' line)

theorem left_worked (r : Rig D) (lines : List ProgramLine) :
    Driver.Worked r.driver (r.left (r.turns lines)).driver := by
  apply left_keeps (fun r' => Driver.Worked r.driver r'.driver) _ (Driver.Reaches.refl _ _)
  intro r' line hw
  exact hw.trans (step_worked r' line)

end Requests

end Rig

end Engraver
