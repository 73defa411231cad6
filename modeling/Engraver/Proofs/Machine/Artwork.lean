import Engraver.Proofs.Machine.Position

/-!
# The artwork and the motion

The picture decides where the laser fires and nothing else. Rigs, boards and plans have an unlit view in
which the laser never fires and the picture is blank, and a run of the unlit rig is the unlit view of the
run. So runs that differ in their pictures only have the same unlit view.
-/

namespace Engraver

/-! ## Unlit plans -/

def Step.unlit (s : Step) : Step :=
  { s with laser := false }

/-- The plan with the laser off in every step. -/
def Plan.unlit (p : Plan) : Plan :=
  ⟨p.steps.map Step.unlit⟩

def Summary.unlit (s : Summary) : Summary :=
  { s with laserSteps := 0 }

@[simp] theorem Plan.summary_unlit (p : Plan) : p.unlit.summary = p.summary.unlit := by
  have ha : Step.a ∘ Step.unlit = Step.a := rfl
  have hb : Step.b ∘ Step.unlit = Step.b := rfl
  have hd : Step.duration ∘ Step.unlit = Step.duration := rfl
  have hl : Step.laser ∘ Step.unlit = fun _ => false := rfl
  simp [Plan.summary, Summary.unlit, Plan.unlit, Plan.length, Plan.totalA, Plan.totalB, Plan.duration,
    Plan.laserSteps, List.countP_map, ha, hb, hd, hl]

namespace Stroke

theorem plan_unlit (s : Stroke) (belts : Belts Float) :
    (s.plan belts).map Plan.unlit =
      (stepper belts (min s.maxSteps maxPlanSteps) s.delta).map fun stepper =>
        ⟨(List.range stepper.length).map fun i => ⟨(stepper.moveAt i).a, (stepper.moveAt i).b, false,
          elapsed s.time stepper.length (i + 1) - elapsed s.time stepper.length i⟩⟩ := by
  unfold plan
  cases stepper belts (min s.maxSteps maxPlanSteps) s.delta with
  | error refusal => rfl
  | ok stepper => simp [Except.map, Plan.unlit, Step.unlit, stepAt]

theorem plan_unlit_congr (s : Stroke) (belts : Belts Float) (start : Point Float) (beam : Beam) :
    (({ s with start, beam } : Stroke).plan belts).map Plan.unlit = (s.plan belts).map Plan.unlit := by
  have htime : ({ s with start, beam } : Stroke).time = s.time := rfl
  simp only [plan_unlit, htime]

theorem plan_of_dark (s : Stroke) (belts : Belts Float) (h : ∀ place, s.beam.fires place = false) :
    (s.plan belts).map Plan.unlit = s.plan belts := by
  unfold plan
  cases stepper belts (min s.maxSteps maxPlanSteps) s.delta with
  | error refusal => rfl
  | ok stepper => simp [Except.map, Plan.unlit, Step.unlit, stepAt, h]

end Stroke

/-! ## Blank pictures -/

def Raster.blank : Raster :=
  ⟨.uniform 0, 1⟩

theorem Raster.sample_blank (x y : Float) : Raster.blank.sample x y = 0 := by
  have hpixel (col row : Nat) : (Raster.blank.mask.get? col row).getD 0 = 0 := by
    unfold Mask.get?
    split
    · rename_i h
      obtain ⟨hcol, hrow⟩ : col < 1 ∧ row < 1 := h
      obtain rfl : col = 0 := by omega
      obtain rfl : row = 0 := by omega
      rfl
    · rfl
  unfold sample
  dsimp only
  split
  · exact hpixel _ _
  · rfl

namespace Machine

def showing (m : Machine) (raster : Raster) (threshold : UInt8) : Machine :=
  { m with raster, threshold }

def unlit (m : Machine) : Machine :=
  m.showing .blank 0

theorem eq_showing_of_unlit {m m' : Machine} (h : m'.unlit = m.unlit) :
    m' = m.showing m'.raster m'.threshold :=
  calc m' = m'.unlit.showing m'.raster m'.threshold := rfl
    _ = m.unlit.showing m'.raster m'.threshold := by rw [h]
    _ = m.showing m'.raster m'.threshold := rfl

/-- No move of the machine fires the laser. -/
def IsDark (m : Machine) : Prop :=
  m.laser = false ∨ m.raster = .blank

theorem plan_of_dark (m : Machine) (h : m.IsDark) (kind : MoveKind) (delta : Point Float) :
    (m.plan kind delta).map Plan.unlit = m.plan kind delta := by
  apply Stroke.plan_of_dark
  intro place
  unfold stroke
  dsimp only
  split
  · rename_i hcuts
    rcases h with hlaser | hblank
    · cases kind <;> simp [cuts, hlaser] at hcuts
    · simp [Beam.fires, hblank, Raster.sample_blank]
  · rfl

theorem plan_unlit (m : Machine) (kind : MoveKind) (delta : Point Float) :
    m.unlit.plan kind delta = (m.plan kind delta).map Plan.unlit := by
  rw [← m.unlit.plan_of_dark (.inr rfl)]
  exact Stroke.plan_unlit_congr (m.stroke kind delta) m.belts m.position _

theorem withFeedrate_unlit (m : Machine) (kind : MoveKind) (feedrate : Float) :
    m.unlit.withFeedrate kind feedrate = (m.withFeedrate kind feedrate).unlit := by
  have hcuts : m.unlit.cuts kind = m.cuts kind := rfl
  unfold withFeedrate
  rw [hcuts]
  split
  · rfl
  · split <;> rfl

end Machine

/-! ## Unlit boards -/

def Record.unlit (r : Record) : Record :=
  { r with plan := r.plan.unlit }

/-- The board with the records of the unlit plans. -/
def Board.unlit (b : Board) : Board :=
  { b with records := b.records.map Record.unlit }

def Handle.unlit (h : Handle) : Handle :=
  { h with board := h.board.unlit }

namespace Board

theorem advance_unlit (trip : Option Trip) (executed elapsed : Nat) (b : Board) (lit : Bool) (records : List Record)
    (steps : List Step) : ∃ laser,
      advance trip executed elapsed { b with laser := lit, records } (steps.map Step.unlit) =
        ((advance trip executed elapsed b steps).1, (advance trip executed elapsed b steps).2.1,
          { (advance trip executed elapsed b steps).2.2 with laser, records }) := by
  induction steps generalizing executed elapsed b lit with
  | nil => exact ⟨lit, rfl⟩
  | cons step steps ih =>
    rw [List.map_cons, advance, advance]
    split
    · exact ⟨lit, rfl⟩
    · dsimp only
      have hswitches : (({ b with laser := lit, records } : Board).take step.unlit).switches =
          (b.take step).switches := rfl
      have hduration : step.unlit.duration = step.duration := rfl
      rw [hswitches, hduration]
      split
      · exact ⟨false, rfl⟩
      · split
        · exact ih (executed + 1) _ (b.take step) false
        · exact ⟨false, rfl⟩

theorem gate_unlit (b : Board) : b.unlit.gate = (b.gate.1, b.gate.2.unlit) := by
  unfold gate unlit
  dsimp only
  split
  · rfl
  · split
    · rfl
    · split
      · rfl
      · split <;> rfl

theorem run_unlit (b : Board) {plan : Plan} (hfits : plan.Fits) :
    b.unlit.run plan.unlit = ((b.run plan).1, (b.run plan).2.unlit) := by
  -- The induction over the steps leaves the laser open, and the end of a plan switches it off.
  unfold run
  rw [gate_unlit]
  rcases b.gate with ⟨_ | code, gated⟩
  · obtain ⟨laser, h⟩ := advance_unlit gated.trip 0 0 { gated with trip := none } gated.laser
      (gated.records.map Record.unlit) plan.steps
    obtain ⟨_, _, _, hframe⟩ := advance_frame gated.trip 0 0 { gated with trip := none } plan.steps
    have hcount : 0 + (Plan.mk plan.steps).duration < 2 ^ 64 := by rwa [Nat.zero_add]
    obtain ⟨code, hcode⟩ := advance_answers gated.trip 0 { gated with trip := none } hcount
    dsimp only [unlit, Plan.unlit] at h ⊢
    rw [h]
    rcases hadv : advance gated.trip 0 0 { gated with trip := none } plan.steps with ⟨executed, _ | code, after⟩ <;>
      rw [hadv] at hcode hframe <;> subst hframe
    · cases hcode
    · simp only [finish, List.map_append]
      rfl
  · simp only [finish, unlit, List.map_append]
    rfl

theorem seek_unlit (b : Board) : b.unlit.seek = (b.seek.1, b.seek.2.unlit) := by
  unfold seek unlit
  dsimp only
  split
  · rfl
  · split <;> rfl

end Board

namespace Handle

theorem setMotors_unlit (h : Handle) (on : Bool) :
    Driver.setMotors on h.unlit = ((Driver.setMotors on h).1, (Driver.setMotors on h).2.unlit) := by
  obtain ⟨board, claimed⟩ := h
  cases claimed <;> rfl

theorem laserOff_unlit (h : Handle) : Driver.laserOff h.unlit = (Driver.laserOff h).unlit := by
  obtain ⟨board, claimed⟩ := h
  cases claimed <;> rfl

theorem home_unlit (h : Handle) : Driver.home h.unlit = ((Driver.home h).1, (Driver.home h).2.unlit) := by
  obtain ⟨board, claimed⟩ := h
  cases claimed
  · rfl
  · simp [Driver.home, unlit, Board.seek_unlit]

theorem execute_unlit (h : Handle) {plan : Plan} (hfits : plan.Fits) :
    Driver.execute plan.unlit h.unlit =
      ((Driver.execute plan h).1, (Driver.execute plan h).2.unlit) := by
  obtain ⟨board, claimed⟩ := h
  cases claimed
  · rfl
  · simp [Driver.execute, execute, unlit, Board.run_unlit board hfits]

end Handle

/-! ## Unlit rigs -/

/-- The counters without the steps of the laser. -/
def MotionStats.unlit (s : MotionStats) : MotionStats :=
  { s with laserSteps := 0, last := s.last.map Summary.unlit }

namespace Rig

/-- The rig with a blank picture, on the unlit board. -/
def unlit (r : Rig Handle) : Rig Handle :=
  { r with machine := r.machine.unlit, driver := r.driver.unlit, stats := r.stats.unlit }

@[simp] theorem unlit_machine (r : Rig Handle) : r.unlit.machine = r.machine.unlit := rfl
@[simp] theorem unlit_driver (r : Rig Handle) : r.unlit.driver = r.driver.unlit := rfl

theorem unlit_notifyIf (r : Rig Handle) (applies : Bool) (notice : Notice) :
    r.unlit.notifyIf applies notice = (r.notifyIf applies notice).unlit := by
  unfold notifyIf
  split <;> rfl

theorem unlit_setMotors (r : Rig Handle) (on : Bool) : r.unlit.setMotors on = (r.setMotors on).unlit := by
  simp only [setMotors, unlit_driver, Handle.setMotors_unlit]
  exact unlit_notifyIf
    { r with machine := r.machine.setMotors on, driver := (Driver.setMotors on r.driver).2 } _ _

theorem unlit_laserOff (r : Rig Handle) : r.unlit.laserOff = r.laserOff.unlit := by
  simp only [laserOff, unlit_driver, Handle.laserOff_unlit]
  rfl

theorem unlit_shutDown (r : Rig Handle) : r.unlit.shutDown = r.shutDown.unlit := by
  rw [shutDown, unlit_laserOff, unlit_setMotors]
  rfl

theorem unlit_home (r : Rig Handle) : r.unlit.home = (r.home.1, r.home.2.unlit) := by
  simp only [home, unlit_setMotors, unlit_driver, Handle.home_unlit]
  split <;> rfl

theorem unlit_ready (r : Rig Handle) (m : Move) : r.unlit.ready m = (r.ready m).unlit := by
  have hfed : r.unlit.applyFeedrate m.kind m.feedrate = (r.applyFeedrate m.kind m.feedrate).unlit := by
    cases m.feedrate with
    | none => rfl
    | some feedrate =>
      simp only [applyFeedrate, unlit_machine, Machine.withFeedrate_unlit]
      exact unlit_notifyIf { r with machine := r.machine.withFeedrate m.kind feedrate } _ _
  unfold ready
  rw [hfed]
  exact unlit_notifyIf _ _ _

theorem unlit_settle (r : Rig Handle) (target : Point Float) (summary : Summary) (status : Status) :
    r.unlit.settle target summary.unlit status =
      ((r.settle target summary status).1.map Summary.unlit, (r.settle target summary status).2.unlit) := by
  unfold settle
  split <;> rfl

theorem unlit_move (r : Rig Handle) (m : Move) :
    r.unlit.move m = ((r.move m).1.map Summary.unlit, (r.move m).2.unlit) := by
  rw [move_eq, move_eq, unlit_ready]
  generalize r.ready m = ready
  have htarget : ready.unlit.machine.target m.x m.y = ready.machine.target m.x m.y := rfl
  have hdelta : ready.unlit.machine.delta m.x m.y = ready.machine.delta m.x m.y := rfl
  rw [htarget, hdelta, unlit_machine, Machine.plan_unlit]
  cases hplan : ready.machine.plan m.kind (ready.machine.delta m.x m.y) with
  | error refusal => rfl
  | ok plan =>
    simp only [Except.map, unlit_driver, Handle.execute_unlit _ (Machine.plan_fits hplan), Plan.summary_unlit]
    exact unlit_settle { ready with driver := (Driver.execute plan r.driver).2 } _ plan.summary _

theorem unlit_concluded (r : Rig Handle) (line : Nat) (result : Except MotionError Unit) :
    r.unlit.concluded line result =
      ((r.concluded line result).1, (r.concluded line result).2.unlit) := by
  cases result with
  | error e => exact congrArg (Prod.mk _) (unlit_shutDown (r.notify _))
  | ok done => rfl

theorem unlit_perform (r : Rig Handle) (line : Nat) (command : Command) :
    r.unlit.perform line command = ((r.perform line command).1, (r.perform line command).2.unlit) := by
  cases command with
  | move kind x y feedrate =>
    rw [perform_move, perform_move, unlit_move, ← unlit_concluded]
    rcases r.move ⟨kind, x, y, feedrate⟩ with ⟨_ | _, after⟩ <;> rfl
  | home => rw [perform_home, perform_home, unlit_home, unlit_concluded]
  | stop kind => cases kind <;> exact congrArg (Prod.mk _) (unlit_shutDown r)
  | laserOn power =>
    simp only [perform, armLaser]
    split
    · rfl
    · exact congrArg (Prod.mk _) (unlit_laserOff { r with machine := { r.machine with power := _ } })
  | laserOff => exact congrArg (Prod.mk _) (unlit_laserOff r)
  | enableMotors on => exact congrArg (Prod.mk _) (unlit_setMotors r on)
  | setStepCal value =>
    cases value with
    | none => rfl
    | some value =>
      simp only [perform, setStepCal]
      split <;> rfl
  | _ => rfl

theorem unlit_step (r : Rig Handle) (line : ProgramLine) :
    r.unlit.step line = ((r.step line).1, (r.step line).2.unlit) := by
  cases h : r.stop.take.1 with
  | true =>
    rw [step_stopped r line h, step_stopped r.unlit line h]
    exact congrArg (Prod.mk _) (unlit_shutDown (r.looked.notify _))
  | false =>
    rw [step_unstopped r line h, step_unstopped r.unlit line h]
    exact unlit_perform r.looked _ _

/-- A run of the unlit rig is the unlit view of the run. -/
theorem unlit_run (r : Rig Handle) (p : Program) :
    r.unlit.run p = ((r.run p).1, (r.run p).2.unlit) :=
  runLines_view unlit_step r [] p.lines

end Rig

/-! ## What commands leave alone -/

structure Machine.SameFittings (m m' : Machine) : Prop where
  bed : m'.bed = m.bed
  skew : m'.skew = m.skew
  raster : m'.raster = m.raster
  threshold : m'.threshold = m.threshold
  mode : m'.mode = m.mode

/-- The mode that a command sets, if it sets one. -/
def Command.mode? : Command → Option Positioning
  | .setMode mode => some mode
  | _ => none

namespace Rig

variable {D : Type} [Driver D]

open Machine (SameFittings)

theorem fed_fittings (m : Machine) (kind : MoveKind) (feedrate : Option Float) (p : Point Float) :
    m.SameFittings { m.fed kind feedrate with position := p } := by
  obtain ⟨speed, h⟩ := m.fed_frame kind feedrate
  rw [h, Machine.withSpeed]
  split <;> exact ⟨rfl, rfl, rfl, rfl, rfl⟩

theorem move_fittings (r : Rig D) (m : Move) : r.machine.SameFittings (r.move m).2.machine := by
  have hfed := fed_fittings r.machine m.kind m.feedrate
  cases h : (r.machine.fed m.kind m.feedrate).plan m.kind (r.machine.delta m.x m.y) with
  | error refusal =>
    rw [(move_of_refused r m refusal h).2.2]
    exact hfed (r.machine.fed m.kind m.feedrate).position
  | ok plan =>
    have hm := (move_of_planned r m plan h).2
    split at hm <;> rw [hm.2]
    · exact hfed _
    · exact hfed (r.machine.fed m.kind m.feedrate).position

theorem home_fittings (r : Rig D) : r.machine.SameFittings r.home.2.machine := by
  have hh := (home_spec r).2
  split at hh <;> rw [hh.2] <;> exact ⟨rfl, rfl, rfl, rfl, rfl⟩

theorem shutDown_fittings (r : Rig D) : r.machine.SameFittings r.shutDown.machine := by
  rw [shutDown_machine]
  exact ⟨rfl, rfl, rfl, rfl, rfl⟩

theorem concluded_fittings {r : Rig D} {m : Machine} (h : m.SameFittings r.machine) (line : Nat)
    (result : Except MotionError Unit) : m.SameFittings (r.concluded line result).2.machine := by
  cases result with
  | error e =>
    obtain ⟨hbed, hskew, hraster, hthreshold, hmode⟩ := shutDown_fittings (r.notify (.aborting line e))
    exact ⟨hbed.trans h.bed, hskew.trans h.skew, hraster.trans h.raster, hthreshold.trans h.threshold,
      hmode.trans h.mode⟩
  | ok done => exact h

theorem perform_fittings (r : Rig D) (line : Nat) (command : Command) :
    SameFittings { r.machine with mode := command.mode?.getD r.machine.mode }
      (r.perform line command).2.machine := by
  cases command with
  | move kind x y feedrate =>
    rw [perform_move]
    exact concluded_fittings (move_fittings r _) line _
  | home =>
    rw [perform_home]
    exact concluded_fittings (home_fittings r) line _
  | stop kind => cases kind <;> exact shutDown_fittings r
  | laserOn power =>
    simp only [perform, armLaser]
    split <;> exact ⟨rfl, rfl, rfl, rfl, rfl⟩
  | enableMotors on =>
    simp only [perform, setMotors_machine]
    exact ⟨rfl, rfl, rfl, rfl, rfl⟩
  | setStepCal value =>
    cases value with
    | none => exact ⟨rfl, rfl, rfl, rfl, rfl⟩
    | some value =>
      simp only [perform, setStepCal]
      split <;> exact ⟨rfl, rfl, rfl, rfl, rfl⟩
  | _ => exact ⟨rfl, rfl, rfl, rfl, rfl⟩

theorem step_picture (r : Rig D) (line : ProgramLine) :
    (r.step line).2.machine.raster = r.machine.raster ∧
      (r.step line).2.machine.threshold = r.machine.threshold := by
  cases h : r.stop.take.1 with
  | true =>
    rw [step_stopped r line h, shutDown_machine]
    exact ⟨rfl, rfl⟩
  | false =>
    rw [step_unstopped r line h]
    exact ⟨(perform_fittings r.looked _ _).raster, (perform_fittings r.looked _ _).threshold⟩

theorem run_picture (r : Rig D) (p : Program) :
    (r.run p).2.machine.raster = r.machine.raster ∧
      (r.run p).2.machine.threshold = r.machine.threshold := by
  rw [run_eq]
  apply left_keeps (fun r' => r'.machine.raster = r.machine.raster ∧
    r'.machine.threshold = r.machine.threshold) _ ⟨rfl, rfl⟩
  intro r' line h
  obtain ⟨hraster, hthreshold⟩ := step_picture r' line
  exact ⟨hraster.trans h.1, hthreshold.trans h.2⟩

/-! ## Pictures and runs -/

def showing (r : Rig D) (raster : Raster) (threshold : UInt8) : Rig D :=
  { r with machine := r.machine.showing raster threshold }

/-- **The artwork never influences motion.** Whatever picture and threshold a machine has, a program runs
alike on the same board: the same commands have their turns and come to the same, with the same answers and
the same end. Apart from the laser flags the records of the board are the same, plan by plan and step by
step, with the same number of steps taken and the same codes, and so is the rest of the board; the counters
differ in the laser's steps only and the state in picture and threshold only. -/
theorem picture_leaves_motion_alone (r : Rig Handle) (raster : Raster) (threshold : UInt8) (p : Program) :
    ((r.showing raster threshold).turns p.lines).map (fun t => (t.line, t.flow)) =
      (r.turns p.lines).map (fun t => (t.line, t.flow)) ∧
    ((r.showing raster threshold).run p).1 = (r.run p).1 ∧
    ((r.showing raster threshold).run p).2.machine = (r.run p).2.machine.showing raster threshold ∧
    ((r.showing raster threshold).run p).2.driver.unlit = (r.run p).2.driver.unlit ∧
    ((r.showing raster threshold).run p).2.stats.unlit = (r.run p).2.stats.unlit ∧
    ((r.showing raster threshold).run p).2.stop = (r.run p).2.stop ∧
    ((r.showing raster threshold).run p).2.log = (r.run p).2.log := by
  have hunlit : (r.showing raster threshold).unlit = r.unlit := rfl
  have hturns : ((r.showing raster threshold).turns p.lines).map (Turn.view unlit) =
      (r.turns p.lines).map (Turn.view unlit) := by
    rw [← turns_view unlit_step, hunlit, turns_view unlit_step]
  have hrun := unlit_run (r.showing raster threshold) p
  rw [hunlit, unlit_run, Prod.mk.injEq] at hrun
  obtain ⟨hend, hview⟩ := hrun
  obtain ⟨hraster, hthreshold⟩ := run_picture (r.showing raster threshold) p
  refine ⟨?_, hend.symm, ?_, (congrArg Rig.driver hview).symm, (congrArg Rig.stats hview).symm,
    (congrArg Rig.stop hview).symm, (congrArg Rig.log hview).symm⟩
  · have hseen := congrArg (List.map fun t => (t.line, t.flow)) hturns
    simpa [Turn.view, Function.comp_def] using hseen
  · have hmachine := Machine.eq_showing_of_unlit (congrArg Rig.machine hview).symm
    rwa [hraster, hthreshold] at hmachine

end Rig

end Engraver
