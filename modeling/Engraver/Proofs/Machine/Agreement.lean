import Engraver.Proofs.Machine.Arming

/-!
# What the machine believes of its board

Motors and homing are kept twice, by the machine and by the board. Every command changes both or neither,
as long as no code is injected that calls a homing done which never ran.
-/

namespace Engraver

namespace Board

/-- The laser is off, and no injected code calls a motion complete that did not run. -/
structure AtRest (b : Board) : Prop where
  dark : b.laser = false
  honest : (0 : Int) ∉ b.injected

theorem seek_injected (b : Board) : b.seek.2.injected <:+ b.injected ∧ b.seek.2.laser = b.laser := by
  rcases seek_cases b with ⟨code, codes, hi, hs⟩ | ⟨-, -, hs⟩ | ⟨-, -, hs⟩ <;> rw [hs]
  · exact ⟨hi ▸ List.suffix_cons code codes, rfl⟩
  · exact ⟨List.suffix_rfl, rfl⟩
  · exact ⟨List.suffix_rfl, rfl⟩

theorem AtRest.of_suffix {b b' : Board} (h : b.AtRest) (hi : b'.injected <:+ b.injected)
    (hl : b'.laser = false) : b'.AtRest :=
  ⟨hl, fun hzero => h.honest (hi.subset hzero)⟩

/-- No request leaves the laser on or injects a code, if the board does not panic over it. -/
theorem AtRest.serve {h : Handle} (hr : h.board.AtRest) (q : Request) (hfits : q.Fits) :
    (Driver.serve h q).board.AtRest := by
  cases hc : h.claimed with
  | false =>
    by_cases hq : q = .claim
    · subst hq
      simp only [Driver.serve, Driver.claim, Handle.claim, hc, Board.claim]
      cases h.board.initFailure <;> cases h.board.claimed <;> exact ⟨by simp [hr.dark], hr.honest⟩
    · rwa [Handle.serve_unclaimed h q hc hq]
  | true =>
    cases q with
    | claim => simpa [Driver.serve, Driver.claim, Handle.claim, hc] using hr
    | release =>
      simp only [Driver.serve, Driver.release, Handle.release, hc, if_true]
      exact ⟨rfl, hr.honest⟩
    | setMotors on =>
      simp only [Driver.serve, Driver.setMotors, hc, if_true]
      exact ⟨hr.dark, hr.honest⟩
    | laserOff =>
      simp only [Driver.serve, Driver.laserOff, hc, if_true]
      exact ⟨rfl, hr.honest⟩
    | readSwitches => exact hr
    | home =>
      obtain ⟨hi, hl⟩ := seek_injected h.board
      simp only [Driver.serve, Driver.home, hc, if_true]
      exact hr.of_suffix hi (hl.trans hr.dark)
    | execute plan =>
      have hends := h.board.run_ends plan
      rw [Handle.run_of_fits h hc hfits] at hends
      obtain ⟨_, _, _, _, _, _, hinjected, -, hframe⟩ := run_frame h.board plan
      rw [Handle.execute_board h hc]
      exact hr.of_suffix (hframe ▸ hinjected) hends.1

theorem AtRest.reaches {h h' : Handle} (hr : h.board.AtRest) (hreach : Driver.Reaches Request.Fits h h') :
    h'.board.AtRest :=
  hreach.keeps (fun h => h.board.AtRest) (fun _ q hfits hr => hr.serve q hfits) hr

end Board

namespace Machine

/-- The machine and its handle's board agree on motors and homing, and the board is at rest. -/
structure Agrees (m : Machine) (h : Handle) : Prop where
  motors : m.motors = h.board.motors
  homed : m.homed = h.board.homed
  /-- Only a machine with its motors on knows where it is. -/
  powered : m.homed = true → m.motors = true
  claimed : h.claimed = true
  rest : h.board.AtRest

theorem Agrees.adjust {m m' : Machine} {h : Handle} (ha : m.Agrees h) (hmotors : m'.motors = m.motors)
    (hhomed : m'.homed = m.homed) : m'.Agrees h :=
  ⟨hmotors ▸ ha.motors, hhomed ▸ ha.homed, hmotors ▸ hhomed ▸ ha.powered, ha.claimed, ha.rest⟩

theorem fed_outputs (m : Machine) (kind : MoveKind) (feedrate : Option Float) :
    (m.fed kind feedrate).motors = m.motors ∧ (m.fed kind feedrate).homed = m.homed := by
  obtain ⟨speed, h⟩ := m.fed_frame kind feedrate
  rw [h, withSpeed]
  split <;> exact ⟨rfl, rfl⟩

end Machine

namespace Rig

open Driver (serve)
open Machine (Agrees)

/-! ## Outputs -/

theorem agrees_laserOff {r : Rig Handle} (h : r.machine.Agrees r.driver) :
    r.laserOff.machine.Agrees r.laserOff.driver := by
  have hrest : (Driver.laserOff r.driver).board.AtRest := h.rest.serve .laserOff trivial
  simp only [laserOff, Driver.laserOff, h.claimed, if_true] at hrest ⊢
  exact ⟨h.motors, h.homed, h.powered, rfl, hrest⟩

theorem agrees_setMotors {r : Rig Handle} (h : r.machine.Agrees r.driver) (on : Bool) :
    (r.setMotors on).machine.Agrees (r.setMotors on).driver := by
  have hrest := h.rest.serve (.setMotors on) trivial
  rw [setMotors_machine, setMotors_driver]
  simp only [serve, Driver.setMotors, h.claimed, if_true] at hrest ⊢
  refine ⟨rfl, ?_, ?_, rfl, hrest⟩
  · simp [Machine.setMotors, Board.setMotors, h.homed]
  · simp [Machine.setMotors]

theorem agrees_shutDown {r : Rig Handle} (h : r.machine.Agrees r.driver) :
    r.shutDown.machine.Agrees r.shutDown.driver :=
  agrees_setMotors (agrees_laserOff h) false

/-! ## Motion -/

theorem agrees_home {r : Rig Handle} (h : r.machine.Agrees r.driver) :
    r.home.2.machine.Agrees r.home.2.driver := by
  obtain ⟨hdriver, hh⟩ := home_spec r
  obtain ⟨hm, hhomed, -, hc, hr⟩ := agrees_setMotors h true
  rw [setMotors_machine, setMotors_driver] at *
  have hrest := hr.serve .home trivial
  have hhomed : r.machine.homed = (serve r.driver (.setMotors true)).board.homed := by
    simpa [Machine.setMotors] using hhomed
  rw [hdriver]
  unfold homingCode at hh
  generalize serve r.driver (.setMotors true) = d at *
  simp only [serve, Driver.home, hc, if_true] at hh hrest ⊢
  rcases Board.seek_cases d.board with ⟨code, codes, hi, hs⟩ | ⟨-, -, hs⟩ | ⟨-, -, hs⟩ <;>
    simp only [hs] at hh hrest ⊢
  · -- An injected code is not zero, so the homing failed on both sides.
    have hcode : code ≠ 0 := by
      rintro rfl
      exact hr.honest (by simp [hi])
    rw [if_neg hcode] at hh
    rw [hh.2]
    exact ⟨hm, hhomed, fun _ => rfl, rfl, hrest⟩
  · rw [if_neg (by decide)] at hh
    rw [hh.2]
    exact ⟨hm, hhomed, fun _ => rfl, rfl, hrest⟩
  · rw [if_pos trivial] at hh
    rw [hh.2]
    exact ⟨hm, rfl, fun _ => rfl, rfl, hrest⟩

theorem agrees_move {r : Rig Handle} (h : r.machine.Agrees r.driver) (m : Move) :
    (r.move m).2.machine.Agrees (r.move m).2.driver := by
  obtain ⟨hmotors, hhomed⟩ := r.machine.fed_outputs m.kind m.feedrate
  cases hplan : (r.machine.fed m.kind m.feedrate).plan m.kind (r.machine.delta m.x m.y) with
  | error refusal =>
    obtain ⟨-, hdriver, hmachine⟩ := move_of_refused r m refusal hplan
    rw [hdriver, hmachine]
    exact h.adjust hmotors hhomed
  | ok plan =>
    obtain ⟨hdriver, hm⟩ := move_of_planned r m plan hplan
    have hexecuted : r.machine.Agrees (serve r.driver (.execute plan)) := by
      have hrest := h.rest.serve (.execute plan) (Machine.plan_fits hplan)
      have hclaimed := (Handle.serve_claimed r.driver (.execute plan) h.claimed (by simp)).1
      obtain ⟨_, _, _, _, _, _, -, -, hframe⟩ := Board.run_frame r.driver.board plan
      have hboard := (Handle.execute_board r.driver h.claimed plan).trans hframe
      exact ⟨h.motors.trans (by rw [hboard]), h.homed.trans (by rw [hboard]), h.powered, hclaimed, hrest⟩
    rw [hdriver]
    split at hm
    · rw [hm.2]
      exact hexecuted.adjust hmotors hhomed
    · rw [hm.2]
      exact hexecuted.adjust hmotors hhomed

/-! ## Commands and runs -/

theorem agrees_concluded {r : Rig Handle} (h : r.machine.Agrees r.driver) (line : Nat)
    (result : Except MotionError Unit) :
    (r.concluded line result).2.machine.Agrees (r.concluded line result).2.driver := by
  cases result with
  | error e => exact agrees_shutDown (r := r.notify _) h
  | ok answer => exact h

theorem agrees_perform {r : Rig Handle} (h : r.machine.Agrees r.driver) (line : Nat) (command : Command) :
    (r.perform line command).2.machine.Agrees (r.perform line command).2.driver := by
  cases command with
  | move kind x y feedrate =>
    rw [perform_move]
    exact agrees_concluded (agrees_move h _) line _
  | home =>
    rw [perform_home]
    exact agrees_concluded (agrees_home h) line _
  | stop kind => cases kind <;> exact agrees_shutDown h
  | laserOn power =>
    simp only [perform, armLaser]
    split
    · exact h.adjust rfl rfl
    · exact agrees_laserOff (r := { r with machine := { r.machine with power := _ } }) (h.adjust rfl rfl)
  | laserOff => exact agrees_laserOff h
  | enableMotors on => exact agrees_setMotors h on
  | setStepCal value =>
    cases value with
    | none => exact h
    | some value =>
      simp only [perform, setStepCal]
      split
      · exact h.adjust rfl rfl
      · exact h
  | setMode mode => exact h.adjust rfl rfl
  | setPosition x y => exact h.adjust rfl rfl
  | _ => exact h

theorem agrees_step {r : Rig Handle} (h : r.machine.Agrees r.driver) (line : ProgramLine) :
    (r.step line).2.machine.Agrees (r.step line).2.driver := by
  cases hs : r.stop.take.1 with
  | true =>
    rw [step_stopped r line hs]
    exact agrees_shutDown (r := r.looked.notify _) h
  | false =>
    rw [step_unstopped r line hs]
    exact agrees_perform (r := r.looked) h line.line line.command

theorem agrees_left {r : Rig Handle} (h : r.machine.Agrees r.driver) (lines : List ProgramLine) :
    (r.left (r.turns lines)).machine.Agrees (r.left (r.turns lines)).driver :=
  left_keeps (fun r => r.machine.Agrees r.driver) (fun _ line h => agrees_step h line) h lines

end Rig

end Engraver
