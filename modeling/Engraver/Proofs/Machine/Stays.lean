import Engraver.Proofs.Hardware.Reckoning
import Engraver.Proofs.Machine.Position

/-!
# What moves nothing

Belts and position change by motions. Switching the outputs, a refused move and all commands but a few leave
both where they are.
-/

namespace Engraver

namespace Command

/-- Whether a command leaves position and calibration as they are, unless the belts move with them. -/
def keepsPlace : Command → Bool
  | setPosition .. | setStepCal _ => false
  | _ => true

end Command

theorem Machine.fed_drive (m : Machine) (kind : MoveKind) (feedrate : Option Float) :
    (m.fed kind feedrate).stepCal = m.stepCal ∧ (m.fed kind feedrate).skew = m.skew := by
  obtain ⟨speed, h⟩ := m.fed_frame kind feedrate
  rw [h, withSpeed]
  split <;> exact ⟨rfl, rfl⟩

namespace Rig

/-- Nothing has moved, neither the belts nor the position, and the drive is the same. -/
structure Stays (r r' : Rig Handle) : Prop where
  a : r'.driver.board.a = r.driver.board.a
  b : r'.driver.board.b = r.driver.board.b
  position : r'.machine.position = r.machine.position
  stepCal : r'.machine.stepCal = r.machine.stepCal
  skew : r'.machine.skew = r.machine.skew

theorem Stays.trans {r r' r'' : Rig Handle} (h : r.Stays r') (h' : r'.Stays r'') : r.Stays r'' :=
  ⟨h'.a.trans h.a, h'.b.trans h.b, h'.position.trans h.position, h'.stepCal.trans h.stepCal,
    h'.skew.trans h.skew⟩

theorem laserOff_stays (r : Rig Handle) : r.Stays r.laserOff := by
  obtain ⟨-, ha, hb⟩ := Handle.serve_stays r.driver .laserOff (by simp) (by simp)
  exact ⟨ha, hb, rfl, rfl, rfl⟩

theorem setMotors_stays (r : Rig Handle) (on : Bool) : r.Stays (r.setMotors on) := by
  obtain ⟨-, ha, hb⟩ := Handle.serve_stays r.driver (.setMotors on) (by simp) (by simp)
  rw [← setMotors_driver] at ha hb
  exact ⟨ha, hb, by rw [setMotors_machine]; rfl, by rw [setMotors_machine]; rfl,
    by rw [setMotors_machine]; rfl⟩

theorem shutDown_stays (r : Rig Handle) : r.Stays r.shutDown :=
  (laserOff_stays r).trans (setMotors_stays _ false)

theorem perform_stays (r : Rig Handle) (line : Nat) {command : Command} (hkeeps : command.keepsPlace = true)
    (hmove : ∀ kind x y feedrate, command ≠ .move kind x y feedrate) (hhome : command ≠ .home) :
    r.Stays (r.perform line command).2 := by
  cases command with
  | move kind x y feedrate => exact absurd rfl (hmove kind x y feedrate)
  | home => exact absurd rfl hhome
  | setPosition x y => cases hkeeps
  | setStepCal value => cases hkeeps
  | stop kind => cases kind <;> exact shutDown_stays r
  | laserOn power =>
    simp only [perform, armLaser]
    split
    · exact ⟨rfl, rfl, rfl, rfl, rfl⟩
    · obtain ⟨ha, hb, -, -, -⟩ := laserOff_stays r
      exact ⟨ha, hb, rfl, rfl, rfl⟩
  | laserOff => exact laserOff_stays r
  | enableMotors on => exact setMotors_stays r on
  | _ => exact ⟨rfl, rfl, rfl, rfl, rfl⟩

theorem move_stays (r : Rig Handle) (m : Move) (refusal : Refusal Float)
    (h : (r.move m).1 = .error (.refused refusal)) : r.Stays (r.move m).2 := by
  cases hplan : (r.machine.fed m.kind m.feedrate).plan m.kind (r.machine.delta m.x m.y) with
  | error refusal =>
    obtain ⟨-, hdriver, hmachine⟩ := move_of_refused r m refusal hplan
    obtain ⟨hcal, hskew⟩ := r.machine.fed_drive m.kind m.feedrate
    exact ⟨by rw [hdriver], by rw [hdriver], by simp [hmachine], by rw [hmachine, hcal],
      by rw [hmachine, hskew]⟩
  | ok plan =>
    have hm := (move_of_planned r m plan hplan).2
    split at hm <;> rw [hm.1] at h <;> cases h

end Rig

end Engraver
