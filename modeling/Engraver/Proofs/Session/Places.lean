import Engraver.Proofs.Machine.Stays
import Engraver.Proofs.Motion.Reach
import Engraver.Proofs.Session.Drift
import Engraver.Proofs.Session.Speeds

/-!
# Places that a session gets to

A session gets from one finite place to the next as long as its calibration is no vanishing fraction of a step
per millimetre. Beyond that, two moves of no steps at all carry its position to infinity.
-/

namespace Engraver

open Double (value)

theorem Point.isFinite_origin : Point.IsFinite ⟨0, 0⟩ := by
  constructor <;> decide +kernel

namespace Machine

/-- The machine is at a finite place, and has this skew. -/
structure IsPlaced (skew : Float) (m : Machine) : Prop where
  position : m.position.IsFinite
  skew_eq : m.skew = skew

theorem isPlaced_lasts (skew : Float) :
    Lasting (fun settings => settings.machine.skew = skew) (IsPlaced skew) where
  powerOn _ h := ⟨Point.isFinite_origin, h⟩
  adjust _ _ _ h := ⟨h.position, h.skew_eq⟩
  off _ h := ⟨h.position, h.skew_eq⟩

theorem tuned_skew (m : Machine) (command : Command) : (m.tuned command).skew = m.skew := by
  cases command with
  | move kind x y feedrate => exact (m.fed_drive kind feedrate).2
  | setStepCal value =>
    cases value with
    | none => rfl
    | some value =>
      rw [tuned]
      split <;> rfl
  | _ => rfl

end Machine

variable {D : Type} [Driver D]

/-- A turn of a command with finite numbers, on a machine whose calibration is no vanishing fraction of a step
per millimetre. -/
structure Turn.IsSane (t : Turn D) : Prop where
  finite : t.line.command.IsFinite
  calibrated : 2 ^ (-900 : Int) ≤ value t.before.machine.stepCal

namespace Rig

variable {skew : Float}

theorem commit_isFinite {r : Rig D} {command : Command} {p : Point Float} (h : r.commit? command = some p)
    (hfinite : command.IsFinite) (hposition : r.machine.position.IsFinite)
    (hcal : 2 ^ (-900 : Int) ≤ value r.machine.stepCal) (hshear : |value r.machine.belts.shear| ≤ 1) :
    p.IsFinite := by
  cases command with
  | move kind x y feedrate =>
    obtain ⟨hcal', hskew⟩ := r.machine.fed_drive kind feedrate
    have hbelts : (r.machine.fed kind feedrate).belts = r.machine.belts := by
      rw [Machine.belts, Machine.belts, hcal', hskew]
    rw [commit?] at h
    cases hplan : (r.machine.fed kind feedrate).plan kind (r.machine.delta x y) with
    | error refusal => simp [hplan] at h
    | ok plan =>
      simp only [hplan] at h
      split at h
      · cases h
        have htarget := Machine.target_isFinite hplan (by rwa [hcal']) (by rwa [hbelts])
          (by rwa [Machine.fed_position])
        rwa [Machine.fed_position] at htarget
      · cases h
  | home =>
    rw [commit?] at h
    split at h
    · cases h
      exact Point.isFinite_origin
    · cases h
  | setPosition x y =>
    cases h
    exact ⟨hfinite x (by simp [Command.numbers]), hfinite y (by simp [Command.numbers])⟩
  | _ => cases h

theorem turn_isPlaced (r : Rig D) (line : ProgramLine) (hsane : (r.turn line).IsSane)
    (hshear : |value (Belts.ofSkew r.machine.stepCal skew).shear| ≤ 1) (h : r.machine.IsPlaced skew) :
    (r.step line).2.machine.IsPlaced skew := by
  constructor
  · have hposition : (r.step line).2.machine.position = (r.turn line).commit?.getD r.machine.position :=
      turn_position r line
    rw [hposition, Turn.commit?]
    split
    · exact h.position
    · cases hcommit : r.commit? line.command with
      | none => simpa [turn, hcommit] using h.position
      | some p =>
        have hp := commit_isFinite hcommit hsane.finite h.position hsane.calibrated
          (by rwa [Machine.belts, h.skew_eq])
        simpa [turn, hcommit] using hp
  · exact step_machine (M := fun m => m.skew = skew) (fun _ _ _ _ _ _ _ hm => hm) r line h.skew_eq
      ((r.machine.tuned_skew line.command).trans h.skew_eq)

end Rig

namespace Session

/-- **Positions stay finite on a sane calibration.** Let the tangent of the skew be at most 1. Whatever finite
numbers a session is given, and whatever its hardware answers, as long as no command finds less than
`2 ^ (-900)` steps per millimetre, the position is finite after every command and every operation. -/
theorem position_stays_finite (settings : Settings)
    (hshear : |value (Machine.powerOn settings).belts.shear| ≤ 1) (picture : Except RasterFault Mask)
    (driver : D) (s : Session D) (hs : start settings picture driver = .ok s) (ops : List Op)
    (hops : ∀ op ∈ ops, op.IsFinite)
    (hcal : ∀ t ∈ s.allTurns ops, 2 ^ (-900 : Int) ≤ value t.before.machine.stepCal) :
    (s.after ops).rig.machine.position.IsFinite ∧
      ∀ t ∈ s.allTurns ops, t.before.machine.position.IsFinite ∧ t.after.machine.position.IsFinite := by
  have hlasts := Machine.isPlaced_lasts settings.machine.skew
  have hstart := start_has hlasts rfl hs
  have hturn (r : Rig D) (line : ProgramLine) (hsane : (r.turn line).IsSane)
      (hr : r.machine.IsPlaced settings.machine.skew) := Rig.turn_isPlaced r line hsane hshear hr
  have hturns (t : Turn D) (ht : t ∈ s.allTurns ops) : t.IsSane := ⟨allTurns_finite hops ht, hcal t ht⟩
  refine ⟨(after_has hlasts Turn.IsSane hturn hstart hturns).2.position, fun t ht => ?_⟩
  obtain ⟨hbefore, hafter⟩ := allTurns_have hlasts Turn.IsSane hturn hstart hturns ht
  exact ⟨hbefore.position, hafter.position⟩

/-- From the edge of what doubles reach, two more moves do not lead past it. -/
theorem position_at_largest_places :
    let ops : List Op := [.runSource "G28\nG92 X1.7976931348623157e308\nG91\nG0 X1\nG0 X1"]
    |value (Machine.powerOn {}).belts.shear| ≤ 1 ∧ (∀ op ∈ ops, op.IsFinite) ∧
      start {} (.error .empty) ⟨{ settings := {} }, false⟩ = .ok onNewBoard ∧
      (∀ t ∈ onNewBoard.allTurns ops, 2 ^ (-900 : Int) ≤ value t.before.machine.stepCal) ∧
      (onNewBoard.after ops).rig.stats.moves = 2 ∧ (onNewBoard.after ops).rig.machine.position.IsFinite := by
  intro ops
  have hshear : |value (Machine.powerOn {}).belts.shear| ≤ 1 := by decide +kernel
  have hfinite : ∀ op ∈ ops, op.IsFinite := by
    intro op hop
    cases List.mem_singleton.mp hop
    trivial
  have hstart : start {} (.error .empty) ⟨{ settings := {} }, false⟩ = .ok onNewBoard := rfl
  have hcal : ∀ t ∈ onNewBoard.allTurns ops, 2 ^ (-900 : Int) ≤ value t.before.machine.stepCal := by
    intro t ht
    have hten : ∀ t ∈ onNewBoard.allTurns ops, value t.before.machine.stepCal = 10 := by decide +kernel
    rw [hten t ht]
    calc (2 : ℚ) ^ (-900 : Int) ≤ 1 := zpow_le_one_of_nonpos₀ one_le_two (by norm_num)
      _ ≤ 10 := by norm_num
  exact ⟨hshear, hfinite, hstart, hcal, by decide +kernel,
    (position_stays_finite {} hshear (.error .empty) _ _ hstart ops hfinite hcal).1⟩

/-- With a calibration that vanishes no move is too long and none makes a step, and the second one gets to
infinity. -/
theorem position_overflows_on_vanishing_calibration :
    let ops : List Op := [.runSource "G28\nM92 X1e-310\nG91\nG0 X1.7e308\nG0 X1.7e308"]
    Settings.check {} = .ok () ∧ start {} (.error .empty) ⟨{ settings := {} }, false⟩ = .ok onNewBoard ∧
      (∀ op ∈ ops, op.IsFinite) ∧ (onNewBoard.after ops).rig.stats.moves = 2 ∧
      (onNewBoard.after ops).rig.machine.position.x.isFinite = false := by
  intro ops
  refine ⟨by rfl, rfl, ?_, by decide +kernel, by decide +kernel⟩
  intro op hop
  cases List.mem_singleton.mp hop
  trivial

end Session

end Engraver
