import Engraver.Proofs.Machine.Feedrates
import Engraver.Proofs.Session.Speeds

/-!
# Feedrates that cannot be used

A feedrate that is not above zero is ignored: the move runs as it does without one. Whatever is no positive number
is such a feedrate, but for positive infinity and what is no number at all, which pass the comparison with zero
and become speeds.
-/

namespace Engraver

open Double (IsPositive reading)

theorem Double.le_zero_of_not_positive {F : Float} (h : ¬ IsPositive F) (hnan : reading F ≠ .nan)
    (hinfinite : reading F ≠ .infinite false) : F ≤ 0 := by
  by_contra hnot
  have hfinite : F.isFinite = true := by
    have hle : ¬ F.toModel.unpack.le (.zero .positive) = true := by
      rw [← unpack_zero]
      exact fun hle => hnot (decide_eq_true_iff.mpr hle)
    rw [reading_eq] at hnan hinfinite
    change F.toModel.unpack.isFinite = true
    cases hu : F.toModel.unpack with
    | notANumber =>
      rw [hu] at hnan
      exact absurd rfl hnan
    | infinity s =>
      rw [hu] at hinfinite hle
      cases s with
      | positive => exact absurd rfl hinfinite
      | negative => exact absurd rfl hle
    | _ => rfl
  exact h ⟨hfinite, pos_of_not_le hfinite hnot⟩

variable {D : Type} [Driver D]

theorem Rig.move_ignored (r : Rig D) (kind : MoveKind) (x y : Option Float) {F : Float} (hF : F ≤ 0) :
    r.move ⟨kind, x, y, some F⟩ = (r.notify (.feedrateIgnored F)).move ⟨kind, x, y, none⟩ := by
  have hready : r.applyFeedrate kind (some F) = r.notify (.feedrateIgnored F) := by
    simp [applyFeedrate, Machine.withFeedrate, notifyIf, hF]
  unfold move
  dsimp only
  rw [hready]
  rfl

namespace Session

/-- The session carries out what it is told next: it is active, and no stop is asked for. -/
def Obeys {D : Type} (s : Session D) : Prop :=
  s.isActive = true ∧ s.rig.stop.take.1 = false

instance {D : Type} (s : Session D) : Decidable s.Obeys := inferInstanceAs (Decidable (_ ∧ _))

section Execute

variable (s : Session D) (command : Command)

theorem execute_locked (h : s.isActive = false) : s.execute command = (.error .terminated, s) := by
  unfold execute
  rw [h]
  rfl

theorem execute_stopped (h : s.isActive = true) (hstop : s.rig.stop.take.1 = true) :
    s.execute command = (.error (.execution (.stopRequested 0)),
      s.leave (s.rig.looked.notify (.stopRequested 0)).shutDown s.terminated) := by
  unfold execute
  rw [h, Rig.step_stopped s.rig ⟨0, command⟩ hstop]
  rfl

theorem execute_obeyed (h : s.Obeys) :
    s.execute command = (((s.rig.looked.perform 0 command).1.map fun _ => ()).mapError .execution,
      s.leave (s.rig.looked.perform 0 command).2 s.terminated) := by
  unfold execute
  rw [h.1, Rig.step_unstopped s.rig ⟨0, command⟩ h.2]
  rcases s.rig.looked.perform 0 command with ⟨_ | _, rig⟩ <;> rfl

theorem execute_cases :
    (s.Obeys ∧ (s.execute command).2.rig = (s.rig.looked.perform 0 command).2) ∨
    (¬ s.Obeys ∧ ((s.execute command).2.rig = s.rig ∨
      ∃ before : Rig D, before.machine = s.rig.machine ∧ before.driver = s.rig.driver ∧
        (s.execute command).2.rig = before.shutDown)) := by
  cases hactive : s.isActive with
  | false =>
    refine .inr ⟨fun h => Bool.false_ne_true (hactive.symm.trans h.1), .inl ?_⟩
    rw [s.execute_locked command hactive]
  | true =>
    cases hstop : s.rig.stop.take.1 with
    | false =>
      refine .inl ⟨⟨hactive, hstop⟩, ?_⟩
      rw [s.execute_obeyed command ⟨hactive, hstop⟩]
      rfl
    | true =>
      refine .inr ⟨fun h => Bool.false_ne_true (h.2.symm.trans hstop), .inr
        ⟨s.rig.looked.notify (.stopRequested 0), rfl, rfl, ?_⟩⟩
      rw [s.execute_stopped command hactive hstop]
      rfl

end Execute

theorem moveTo_speeds (s : Session D) (x y : Float) (feedrate : Option Float) :
    (s.moveTo x y feedrate).2.rig.machine.speeds =
      if s.Obeys then (s.rig.machine.fed .rapid feedrate).speeds else s.rig.machine.speeds := by
  unfold moveTo
  rcases s.execute_cases (.move .rapid (some x) (some y) feedrate) with
    ⟨hobeys, hrig⟩ | ⟨hobeys, hrig | ⟨before, hmachine, -, hrig⟩⟩
  · rw [hrig, if_pos hobeys]
    exact Rig.perform_speeds s.rig.looked 0 (.rapid x y feedrate)
  · rw [hrig, if_neg hobeys]
  · rw [hrig, if_neg hobeys, Rig.shutDown_machine, ← hmachine]
    rfl

theorem handed_moveTo (s : Session (Taped D)) (x y : Float) (feedrate : Option Float) :
    (s.moveTo x y feedrate).2.rig.handed =
      s.rig.handed ++ if s.Obeys then (s.rig.machine.planned (.rapid x y feedrate)).toOption.toList else [] := by
  unfold moveTo
  rcases s.execute_cases (.move .rapid (some x) (some y) feedrate) with
    ⟨hobeys, hrig⟩ | ⟨hobeys, hrig | ⟨before, -, hdriver, hrig⟩⟩
  · rw [hrig, if_pos hobeys]
    exact Rig.handed_perform s.rig.looked 0 (.rapid x y feedrate)
  · rw [hrig, if_neg hobeys, List.append_nil]
  · -- A stop switches all off, and no plan is handed over.
    rw [hrig, if_neg hobeys, List.append_nil, Rig.handed, Rig.handed, ← hdriver]
    exact Taped.plans_of_quiet (Rig.shutDown_quiet before)

/-- **Unusable feedrates are ignored.** Let a feedrate be no positive number, and neither positive infinity nor
no number at all. Then a move of any kind runs as it does without a feedrate, but for a line in the log: its plan
is made at the speeds that were stored before, and these stay as they are. So they do in a session that is told to
move, which hands just that plan to its hardware if it obeys at all. -/
theorem unusable_feedrates_are_ignored (F : Float) (hF : ¬ IsPositive F) (hnan : reading F ≠ .nan)
    (hinfinite : reading F ≠ .infinite false) (D : Type) [Driver D] :
    (∀ (r : Rig D) (kind : MoveKind) (x y : Option Float),
      let v : Move := ⟨kind, x, y, some F⟩
      r.move v = (r.notify (.feedrateIgnored F)).move ⟨kind, x, y, none⟩ ∧
      r.machine.planned v = r.machine.plan kind (r.machine.delta x y) ∧
      r.MovesIn v (Machine.timeAt (r.machine.speedOf kind) (r.machine.delta x y)) r.machine.speeds) ∧
    (∀ (s : Session D) (x y : Float),
      (s.moveTo x y (some F)).2.rig.machine.speeds = s.rig.machine.speeds) ∧
    ∀ (s : Session (Taped D)) (x y : Float), (s.moveTo x y (some F)).2.rig.handed =
      s.rig.handed ++ if s.Obeys then
        (s.rig.machine.plan .rapid (s.rig.machine.delta (some x) (some y))).toOption.toList else [] := by
  have hle := Double.le_zero_of_not_positive hF hnan hinfinite
  have hfed (m : Machine) (kind : MoveKind) : m.fed kind (some F) = m := if_pos hle
  refine ⟨fun r kind x y => ⟨r.move_ignored kind x y hle, ?_, ?_⟩, fun s x y => ?_, fun s x y => ?_⟩
  · rw [Machine.planned, hfed]
  · have hmoves := r.movesIn ⟨kind, x, y, some F⟩
    rwa [hfed] at hmoves
  · rw [moveTo_speeds, hfed, ite_self]
  · rw [handed_moveTo, Machine.planned, Move.rapid, hfed]

/-- A homed session goes three millimetres at the travel speed that it had, although the feedrate is below zero. -/
theorem negative_feedrate_is_ignored :
    let s := onTapedBoard.home.2
    ¬ IsPositive (-60) ∧ reading (-60) ≠ .nan ∧ reading (-60) ≠ .infinite false ∧ s.Obeys ∧
      (s.moveTo 3 0 (some (-60))).2.rig.machine.speeds = (1, 30) ∧
      ∃ plan, (s.moveTo 3 0 (some (-60))).2.rig.handed = [plan] ∧ plan.summary = ⟨30, 30, 30, 0, 100000⟩ := by
  intro s
  have hF : ¬ IsPositive (-60) := by decide +kernel
  have hnan : reading (-60) ≠ .nan := by decide +kernel
  have hinfinite : reading (-60) ≠ .infinite false := by decide +kernel
  have hobeys : s.Obeys := by decide +kernel
  have hfirst : s.rig.handed = [] := by decide +kernel
  have hbefore : s.rig.machine.speeds = (1, 30) := by decide +kernel
  have hspeeds := (unusable_feedrates_are_ignored (-60) hF hnan hinfinite (Taped Handle)).2.1 s 3 0
  have hhanded := (unusable_feedrates_are_ignored (-60) hF hnan hinfinite Handle).2.2 s 3 0
  have hsummary : (s.rig.machine.plan .rapid (s.rig.machine.delta (some 3) (some 0))).toOption.map Plan.summary =
      some ⟨30, 30, 30, 0, 100000⟩ := by decide +kernel
  obtain ⟨plan, hplan, hsummed⟩ := Option.map_eq_some_iff.mp hsummary
  rw [if_pos hobeys, hplan, hfirst] at hhanded
  exact ⟨hF, hnan, hinfinite, hobeys, hspeeds.trans hbefore, plan, hhanded, hsummed⟩

/-- The same session on a feedrate that is no number, and on an infinite one: each becomes the travel speed, and
the plan of thirty steps takes no time. -/
theorem infinite_feedrates_become_speeds :
    let s := onTapedBoard.home.2
    ¬ IsPositive Double.nan ∧ ¬ IsPositive (Double.infinity false) ∧ s.rig.machine.speeds = (1, 30) ∧
      reading (s.moveTo 3 0 (some Double.nan)).2.rig.machine.travelSpeed = .nan ∧
      reading (s.moveTo 3 0 (some (Double.infinity false))).2.rig.machine.travelSpeed = .infinite false ∧
      (s.moveTo 3 0 (some Double.nan)).2.rig.handed.map Plan.summary = [⟨30, 30, 30, 0, 0⟩] ∧
      (s.moveTo 3 0 (some (Double.infinity false))).2.rig.handed.map Plan.summary = [⟨30, 30, 30, 0, 0⟩] ∧
      (s.rig.machine.plan .rapid (s.rig.machine.delta (some 3) (some 0))).toOption.map Plan.summary =
        some ⟨30, 30, 30, 0, 100000⟩ := by
  intro s
  have hobeys : s.Obeys := by decide +kernel
  have hfirst : s.rig.handed = [] := by decide +kernel
  have hstored (F : Float) : (s.moveTo 3 0 (some F)).2.rig.machine.travelSpeed =
      (s.rig.machine.fed .rapid (some F)).travelSpeed := by
    have hspeeds := s.moveTo_speeds 3 0 (some F)
    rw [if_pos hobeys] at hspeeds
    exact congrArg Prod.snd hspeeds
  have hplanned (F : Float) : (s.moveTo 3 0 (some F)).2.rig.handed =
      (s.rig.machine.planned (.rapid 3 0 (some F))).toOption.toList := by
    rw [handed_moveTo, hfirst, if_pos hobeys, List.nil_append]
  rw [hstored, hstored, hplanned, hplanned]
  refine ⟨?_, ?_, ?_, ?_, ?_, ?_, ?_, ?_⟩ <;> decide +kernel

end Session

end Engraver
