import Engraver.Proofs.Machine.Speeds

/-!
# The speed of a move

The feedrate of a move is stored before the move is planned, and by the same rule by which the plan takes its
speed: for a cut as the cutting speed, else as the travel speed. So it governs the very move that it is written
on, and whatever becomes of that move, the other speed stays.
-/

namespace Engraver

open Double (IsPositive)

namespace Machine

def speeds (m : Machine) : Float × Float :=
  (m.cutSpeed, m.travelSpeed)

def speedOf (m : Machine) (kind : MoveKind) : Float :=
  if m.cuts kind then m.cutSpeed else m.travelSpeed

/-- The plan of a move, at the speed that its own feedrate sets. -/
def planned (m : Machine) (v : Move) : Except (Refusal Float) Plan :=
  (m.fed v.kind v.feedrate).plan v.kind (m.delta v.x v.y)

/-- The microseconds of a displacement at a speed; none without a positive speed. -/
def timeAt (speed : Float) (d : Point Float) : Nat :=
  if 0 < speed then Double.roundToCount (Double.length d.x d.y / speed * 1e6) else 0

theorem cuts_iff (m : Machine) (kind : MoveKind) :
    m.cuts kind = true ↔ kind = .controlled ∧ m.laser = true := by
  cases kind <;> simp [cuts]

/-! ## What a feedrate does -/

theorem withSpeed_cuts (m : Machine) (kind : MoveKind) (speed : Float) :
    (m.withSpeed kind speed).cuts kind = m.cuts kind := by
  unfold withSpeed
  split <;> rfl

theorem withSpeed_speedOf (m : Machine) (kind : MoveKind) (speed : Float) :
    (m.withSpeed kind speed).speedOf kind = speed := by
  rw [speedOf, withSpeed_cuts, withSpeed]
  split <;> rfl

theorem withSpeed_speeds (m : Machine) (kind : MoveKind) (speed : Float) :
    (m.withSpeed kind speed).speeds =
      if kind = .controlled ∧ m.laser = true then (speed, m.travelSpeed) else (m.cutSpeed, speed) := by
  unfold withSpeed
  simp only [cuts_iff]
  split <;> rfl

theorem fed_positive (m : Machine) (kind : MoveKind) {F : Float} (hF : IsPositive F)
    (hne : (F / 60.0 != 0) = true) : m.fed kind (some F) = m.withSpeed kind (F / 60.0) := by
  have hzero := Double.value_zero.1
  have hpos : ¬ F ≤ 0 := by
    rw [Double.le_iff_value_le hF.1 hzero, not_le]
    exact (Double.lt_iff_value_lt hzero hF.1).mp hF.2
  simp only [fed, withFeedrate, if_neg hpos, withSpeed, setSpeeds, speedOr, hne, if_true]

theorem fed_ignored (m : Machine) (kind : MoveKind) {feedrate : Option Float} (h : ∀ F ∈ feedrate, F ≤ 0) :
    m.fed kind feedrate = m := by
  cases feedrate with
  | none => rfl
  | some F => exact if_pos (h F rfl)

theorem duration_of_planned {m : Machine} {v : Move} {plan : Plan} (h : m.planned v = .ok plan)
    (hsteps : plan.steps ≠ []) :
    plan.duration = timeAt ((m.fed v.kind v.feedrate).speedOf v.kind) (m.delta v.x v.y) := by
  have htime : plan.duration = ((m.fed v.kind v.feedrate).stroke v.kind (m.delta v.x v.y)).time :=
    Stroke.plan_duration h hsteps
  rw [htime]
  rfl

end Machine

def Move.command (v : Move) : Command :=
  .move v.kind v.x v.y v.feedrate

namespace Rig

section Tape

variable {D : Type}

def handed (r : Rig (Taped D)) : List Plan :=
  r.driver.tape.filterMap Request.plan?

end Tape

variable {D : Type} [Driver D]

/-! ## What a move does -/

theorem move_speeds (r : Rig D) (v : Move) :
    (r.move v).2.machine.speeds = (r.machine.fed v.kind v.feedrate).speeds := by
  obtain ⟨position, hmove⟩ := move_machine r v
  rw [hmove]
  rfl

theorem perform_speeds (r : Rig D) (line : Nat) (v : Move) :
    (r.perform line v.command).2.machine.speeds = (r.machine.fed v.kind v.feedrate).speeds := by
  obtain ⟨position, mode, laser, power, homed, motors, hperform⟩ := perform_machine r line v.command
  rw [hperform]
  rfl

theorem handed_move (r : Rig (Taped D)) (v : Move) :
    (r.move v).2.handed = r.handed ++ (r.machine.planned v).toOption.toList := by
  unfold handed
  cases hplan : r.machine.planned v with
  | error refusal =>
    rw [(move_of_refused r v refusal hplan).2.1]
    exact (List.append_nil _).symm
  | ok plan =>
    rw [(move_of_planned r v plan hplan).1, Taped.serve_eq, Taped.record, List.filterMap_append]
    rfl

theorem handed_perform (r : Rig (Taped D)) (line : Nat) (v : Move) :
    (r.perform line v.command).2.handed = r.handed ++ (r.machine.planned v).toOption.toList := by
  rw [Move.command, perform_move, ← handed_move]
  -- Whatever the end of the move leads to, it hands over no plan.
  exact Taped.plans_of_quiet (concluded_quiet _ _ _)

/-- Run by itself or in a program, the move leaves these speeds, and the plan that it hands to the hardware is its
own, which takes this time if it has any steps. -/
structure MovesIn (r : Rig D) (v : Move) (time : Nat) (speeds : Float × Float) : Prop where
  moved : (r.move v).2.machine.speeds = speeds
  performed : ∀ line, (r.perform line v.command).2.machine.speeds = speeds
  handed : (r.taped.move v).2.handed = (r.machine.planned v).toOption.toList
  handedOver : ∀ line, (r.taped.perform line v.command).2.handed = (r.machine.planned v).toOption.toList
  duration : ∀ plan, r.machine.planned v = .ok plan → plan.steps ≠ [] → plan.duration = time

theorem movesIn (r : Rig D) (v : Move) :
    r.MovesIn v (Machine.timeAt ((r.machine.fed v.kind v.feedrate).speedOf v.kind) (r.machine.delta v.x v.y))
      (r.machine.fed v.kind v.feedrate).speeds where
  moved := move_speeds r v
  performed line := perform_speeds r line v
  handed := handed_move r.taped v
  handedOver line := handed_perform r.taped line v
  duration _ h hsteps := Machine.duration_of_planned h hsteps

/-- **A feedrate governs its own move.** Let a move have a feedrate above zero that comes to something in
millimetres per second. Whatever becomes of the move, this speed is then the cutting speed if the move is
controlled and the laser armed, and else the travel speed, and the other is as it was; and the plan of the move
takes the time that its way takes at this speed. A move without a feedrate, or with one that is not above zero,
leaves both speeds as they were and goes at the one of the same rule. -/
theorem feedrate_governs_its_move (r : Rig D) (v : Move) :
    let m := r.machine
    let d := m.delta v.x v.y
    let cuts := v.kind = .controlled ∧ m.laser = true
    (∀ F, v.feedrate = some F → F.isFinite = true → 0 < F → (F / 60.0 != 0) = true →
      r.MovesIn v (Double.roundToCount (Double.length d.x d.y / (F / 60.0) * 1e6))
        (if cuts then (F / 60.0, m.travelSpeed) else (m.cutSpeed, F / 60.0))) ∧
    ((∀ F ∈ v.feedrate, F ≤ 0) →
      r.MovesIn v (Machine.timeAt (if cuts then m.cutSpeed else m.travelSpeed) d) (m.cutSpeed, m.travelSpeed)) := by
  intro m d cuts
  have hmoves := r.movesIn v
  refine ⟨fun F hfeedrate hfinite hpos hne => ?_, fun hignored => ?_⟩
  · have hspeed : IsPositive (F / 60.0) :=
      IsPositive.div ⟨hfinite, hpos⟩ (by decide +kernel) (by decide +kernel) hne
    have htime : Machine.timeAt (F / 60.0) d = Double.roundToCount (Double.length d.x d.y / (F / 60.0) * 1e6) :=
      if_pos hspeed.2
    rw [hfeedrate, Machine.fed_positive _ _ ⟨hfinite, hpos⟩ hne, Machine.withSpeed_speedOf,
      Machine.withSpeed_speeds, htime] at hmoves
    exact hmoves
  · rw [Machine.fed_ignored _ _ hignored, Machine.speedOf] at hmoves
    simp only [Machine.cuts_iff] at hmoves
    exact hmoves

/-- A board that has not been homed runs neither of two moves of five millimetres. The cut, which is to go at 600
millimetres per minute, leaves its speed all the same; the travel move has a feedrate below zero. -/
theorem feedrate_of_unhomed_moves :
    let r : Rig Handle := { onNewBoard with machine := { onNewBoard.machine with laser := true } }
    let cut : Move := ⟨.controlled, some 3, some 4, some 600⟩
    let travel : Move := ⟨.rapid, some 3, some 4, some (-600)⟩
    (600 : Float).isFinite = true ∧ (0 : Float) < 600 ∧ ((600 : Float) / 60.0 != 0) = true ∧
      (∀ F ∈ travel.feedrate, F ≤ 0) ∧ (r.move cut).2.stats.faults = 1 ∧ (r.move travel).2.stats.faults = 1 ∧
      r.MovesIn cut 500000 (10, 30) ∧ r.MovesIn travel 166667 (1, 30) := by
  intro r cut travel
  have hfinite : (600 : Float).isFinite = true := by decide +kernel
  have hpos : (0 : Float) < 600 := by decide +kernel
  have hne : ((600 : Float) / 60.0 != 0) = true := by decide +kernel
  have hignored : ∀ F ∈ travel.feedrate, F ≤ 0 := by
    intro F hF
    cases hF
    decide +kernel
  refine ⟨hfinite, hpos, hne, hignored, by decide +kernel, by decide +kernel, ?_, ?_⟩
  · have hmoves := (feedrate_governs_its_move r cut).1 600 rfl hfinite hpos hne
    have htime : Double.roundToCount (Double.length (r.machine.delta cut.x cut.y).x (r.machine.delta cut.x cut.y).y /
        (600 / 60.0) * 1e6) = 500000 := by decide +kernel
    have hspeed : (600 : Float) / 60.0 = 10 := by decide +kernel
    rw [htime, if_pos ⟨rfl, rfl⟩, hspeed] at hmoves
    exact hmoves
  · have hmoves := (feedrate_governs_its_move r travel).2 hignored
    have htime : Machine.timeAt 30 (r.machine.delta travel.x travel.y) = 166667 := by decide +kernel
    rw [if_neg (by rintro ⟨⟨⟩, -⟩)] at hmoves
    rw [← htime]
    exact hmoves

end Rig

end Engraver
