import Engraver.Proofs.Machine.Position

/-!
# When the laser may fire

Two things decide whether the laser fires: the state, which commands and aborts arm and disarm, and the
plan of a move, which fires the laser only in an armed cut.
-/

namespace Engraver

/-- Whether the laser fires in some step of a plan. -/
def Plan.isLit (p : Plan) : Bool :=
  p.steps.any Step.laser

/-- What a command that runs decides about the laser: armed, disarmed, or nothing. -/
def Command.arming? : Command → Option Bool
  | .laserOn power => some (power.getD 0 != 0)
  | .laserOff | .stop _ => some false
  | _ => none

/-- What a command has decided about the laser. An error, which a stop request is too, disarms it. -/
def Command.decided? (command : Command) : Except ExecutionError Flow → Option Bool
  | .ok _ => command.arming?
  | .error _ => some false

/-! ## Dark plans -/

theorem Stroke.plan_off (s : Stroke) (belts : Belts Float) (plan : Plan) (hs : s.beam = .off)
    (h : s.plan belts = .ok plan) : plan.isLit = false := by
  unfold Stroke.plan at h
  cases hstep : stepper belts (min s.maxSteps maxPlanSteps) s.delta with
  | error refusal => simp [hstep, Except.map] at h
  | ok stepper =>
    rw [hstep] at h
    cases h
    simp [Plan.isLit, stepAt, hs, Beam.fires]

theorem Machine.plan_lit (m : Machine) (kind : MoveKind) (delta : Point Float) (plan : Plan)
    (h : m.plan kind delta = .ok plan) (hlit : plan.isLit = true) :
    kind = .controlled ∧ m.laser = true := by
  cases hcuts : m.cuts kind with
  | true =>
    cases kind with
    | rapid => cases hcuts
    | controlled => exact ⟨rfl, hcuts⟩
  | false =>
    rw [Stroke.plan_off _ m.belts plan (by simp [stroke, hcuts]) h] at hlit
    cases hlit

@[simp] theorem Machine.fed_laser (m : Machine) (kind : MoveKind) (feedrate : Option Float) :
    (m.fed kind feedrate).laser = m.laser := by
  obtain ⟨speed, h⟩ := m.fed_frame kind feedrate
  rw [h, withSpeed]
  split <;> rfl

/-! ## Arming -/

section Arming

variable {D : Type}

variable [Driver D]

namespace Rig

theorem move_laser (r : Rig D) (m : Move) : (r.move m).2.machine.laser = r.machine.laser := by
  cases h : (r.machine.fed m.kind m.feedrate).plan m.kind (r.machine.delta m.x m.y) with
  | error refusal =>
    rw [(move_of_refused r m refusal h).2.2]
    simp
  | ok plan =>
    obtain ⟨-, hm⟩ := move_of_planned r m plan h
    split at hm <;> simp [hm.2]

theorem home_laser (r : Rig D) : r.home.2.machine.laser = r.machine.laser := by
  obtain ⟨-, hh⟩ := home_spec r
  split at hh <;> simp [hh.2]

theorem armLaser_laser (r : Rig D) (power : Option Float) :
    (r.armLaser power).machine.laser = (power.getD 0 != 0) := by
  simp only [armLaser]
  split <;> rename_i h
  · exact h.symm
  · exact (Bool.not_eq_true _ ▸ h).symm

theorem concluded_laser (r : Rig D) (line : Nat) (result : Except MotionError Unit) (command : Command)
    (h : command.arming? = none) : (r.concluded line result).2.machine.laser =
      (command.decided? (r.concluded line result).1).getD r.machine.laser := by
  cases result with
  | error e => exact (shutDown_isOff (r.notify _)).1
  | ok answer => simp [concluded, Command.decided?, h]

theorem perform_laser (r : Rig D) (line : Nat) (command : Command) :
    (r.perform line command).2.machine.laser =
      (command.decided? (r.perform line command).1).getD r.machine.laser := by
  cases command with
  | move kind x y feedrate =>
    rw [perform_move, concluded_laser _ _ _ (.move kind x y feedrate) rfl, move_laser]
  | home => rw [perform_home, concluded_laser _ _ _ .home rfl, home_laser]
  | stop kind => cases kind <;> exact (shutDown_isOff r).1
  | laserOn power => exact armLaser_laser r power
  | laserOff => rfl
  | enableMotors on =>
    simp only [perform, setMotors_machine]
    rfl
  | setStepCal value =>
    cases value with
    | none => rfl
    | some value =>
      simp only [perform, setStepCal]
      split <;> rfl
  | _ => rfl

theorem turn_laser (r : Rig D) (line : ProgramLine) :
    (r.turn line).after.machine.laser =
      (line.command.decided? (r.turn line).flow).getD r.machine.laser := by
  cases h : r.stop.take.1 with
  | true =>
    simp only [turn, step_stopped r line h]
    exact (shutDown_isOff _).1
  | false =>
    simp only [turn, step_unstopped r line h]
    exact perform_laser r.looked _ _

end Rig

end Arming

/-! ## What goes on record -/

namespace Handle

open Driver (serve)

theorem serve_records (h : Handle) (q : Request) :
    (serve h q).board.records = h.board.records ∨
      ∃ plan executed code, q = .execute plan ∧
        (serve h q).board.records = h.board.records ++ [⟨plan, executed, code⟩] := by
  cases hc : h.claimed with
  | false =>
    by_cases hq : q = .claim
    · subst hq
      simp only [serve, Driver.claim, Handle.claim, hc, Board.claim]
      cases h.board.initFailure <;> cases h.board.claimed <;> exact .inl rfl
    · rw [serve_unclaimed h q hc hq]
      exact .inl rfl
  | true =>
    cases q with
    | execute plan =>
      have hends := h.board.run_ends plan
      rw [execute_board h hc]
      split at hends
      · obtain ⟨-, executed, hrecords⟩ := hends
        exact .inr ⟨plan, executed, _, rfl, hrecords⟩
      · exact .inl hends
    | home =>
      simp only [serve, Driver.home, hc, if_true, Board.seek]
      cases h.board.injected <;> cases h.board.feet <;> exact .inl rfl
    | claim => simp [serve, Driver.claim, Handle.claim, hc]
    | release => simp [serve, Driver.release, Handle.release, hc, Board.freed]
    | setMotors on => simp [serve, Driver.setMotors, hc, Board.setMotors]
    | laserOff => simp [serve, Driver.laserOff, hc]
    | readSwitches => exact .inl rfl

theorem records_of_serve (h : Handle) (q : Request) (hq : ∀ plan, q ≠ .execute plan) :
    (serve h q).board.records = h.board.records := by
  rcases serve_records h q with hs | ⟨plan, -, -, he, -⟩
  · exact hs
  · exact absurd he (hq plan)

theorem records_of_quiet {h h' : Handle} (hq : Driver.Quiet h h') :
    h'.board.records = h.board.records := by
  apply hq.keeps (fun h' => h'.board.records = h.board.records) _ rfl
  intro d q hq hd
  rw [records_of_serve d q (by rintro plan rfl; cases hq), hd]

end Handle

namespace Rig

/-- The records that a board has now and had not before. -/
def newRecords (before after : Rig Handle) : List Record :=
  after.driver.board.records.drop before.driver.board.records.length

theorem newRecords_eq {r r' : Rig Handle} {new : List Record}
    (h : r'.driver.board.records = r.driver.board.records ++ new) : newRecords r r' = new := by
  rw [newRecords, h, List.drop_left]

theorem move_records (r : Rig Handle) (m : Move) :
    ∃ new, (r.move m).2.driver.board.records = r.driver.board.records ++ new ∧
      ∀ record ∈ new, record.plan.isLit = true → m.kind = .controlled ∧ r.machine.laser = true := by
  cases h : (r.machine.fed m.kind m.feedrate).plan m.kind (r.machine.delta m.x m.y) with
  | error refusal =>
    rw [(move_of_refused r m refusal h).2.1]
    exact ⟨[], by simp, by simp⟩
  | ok plan =>
    rw [(move_of_planned r m plan h).1]
    rcases Handle.serve_records r.driver (.execute plan) with hs | ⟨plan', executed, code, he, hs⟩
    · exact ⟨[], by simp [hs], by simp⟩
    · cases he
      refine ⟨_, hs, ?_⟩
      intro record hrecord hlit
      rw [List.mem_singleton] at hrecord
      subst hrecord
      simpa using Machine.plan_lit _ m.kind _ plan h hlit

theorem perform_records (r : Rig Handle) (line : Nat) (command : Command) :
    ∃ new, (r.perform line command).2.driver.board.records = r.driver.board.records ++ new ∧
      ∀ record ∈ new, record.plan.isLit = true →
        (∃ x y feedrate, command = .move .controlled x y feedrate) ∧ r.machine.laser = true := by
  by_cases hmove : ∃ kind x y feedrate, command = .move kind x y feedrate
  · obtain ⟨kind, x, y, feedrate, rfl⟩ := hmove
    obtain ⟨new, hnew, hlit⟩ := move_records r ⟨kind, x, y, feedrate⟩
    refine ⟨new, ?_, ?_⟩
    · rw [perform_move, Handle.records_of_quiet (concluded_quiet _ _ _), hnew]
    · intro record hrecord hl
      obtain ⟨rfl, hlaser⟩ := hlit record hrecord hl
      exact ⟨⟨x, y, feedrate, rfl⟩, hlaser⟩
  · have hquiet := perform_quiet r line command (by simpa using hmove)
    exact ⟨[], by rw [Handle.records_of_quiet hquiet, List.append_nil], by simp⟩

/-- A turn that puts a lit plan on record is an armed cut. -/
theorem turn_records (r : Rig Handle) (line : ProgramLine) :
    (r.turn line).after.driver.board.records =
        r.driver.board.records ++ newRecords r (r.turn line).after ∧
      ∀ record ∈ newRecords r (r.turn line).after, record.plan.isLit = true →
        (∃ x y feedrate, line.command = .move .controlled x y feedrate) ∧ r.machine.laser = true := by
  obtain ⟨new, hnew, hlit⟩ : ∃ new, (r.turn line).after.driver.board.records =
      r.driver.board.records ++ new ∧ ∀ record ∈ new, record.plan.isLit = true →
        (∃ x y feedrate, line.command = .move .controlled x y feedrate) ∧ r.machine.laser = true := by
    cases h : r.stop.take.1 with
    | true =>
      simp only [turn, step_stopped r line h]
      have hquiet := shutDown_quiet (r.looked.notify (.stopRequested line.line))
      exact ⟨[], by rw [Handle.records_of_quiet hquiet, List.append_nil]; rfl, by simp⟩
    | false =>
      simp only [turn, step_unstopped r line h]
      exact perform_records r.looked _ _
  rw [newRecords_eq hnew]
  exact ⟨hnew, hlit⟩

end Rig

end Engraver
