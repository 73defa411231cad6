import Mathlib.Tactic.Ring
import Engraver.Motion.Stroke

/-!
# The steps of a plan

However a move is spread over its steps, no belt makes more than one step at a time, and in the end each
belt has made its total and all of the time has passed.
-/

namespace Engraver

/-! ## Shares -/

theorem share_zero (total : Int) (n : Nat) : share total 0 n = 0 := by
  have hzero : (total.natAbs * 0 * 2 + n) / (2 * n) = 0 := by
    rcases Nat.eq_zero_or_pos n with rfl | hn
    · simp
    · exact Nat.div_eq_of_lt (by omega)
  simp only [share, hzero]
  split <;> rfl

theorem share_all (total : Int) (n : Nat) (h : total.natAbs ≤ n) : share total n n = total := by
  rcases Nat.eq_zero_or_pos n with rfl | hn
  · rw [share_zero]
    omega
  · have hall : (total.natAbs * n * 2 + n) / (2 * n) = total.natAbs := by
      apply Nat.div_eq_of_lt_le
      · calc total.natAbs * (2 * n) = total.natAbs * n * 2 := by ring
          _ ≤ total.natAbs * n * 2 + n := Nat.le_add_right _ _
      · calc total.natAbs * n * 2 + n < total.natAbs * n * 2 + 2 * n := by omega
          _ = (total.natAbs + 1) * (2 * n) := by ring
    simp only [share, hall]
    split <;> omega

theorem share_succ (total : Int) (i n : Nat) (h : total.natAbs ≤ n) :
    (share total (i + 1) n - share total i n).natAbs ≤ 1 := by
  obtain ⟨hge, hle⟩ : (total.natAbs * i * 2 + n) / (2 * n) ≤ (total.natAbs * (i + 1) * 2 + n) / (2 * n) ∧
      (total.natAbs * (i + 1) * 2 + n) / (2 * n) ≤ (total.natAbs * i * 2 + n) / (2 * n) + 1 := by
    have hnext : total.natAbs * (i + 1) * 2 + n = total.natAbs * i * 2 + n + 2 * total.natAbs := by ring
    rcases Nat.eq_zero_or_pos n with rfl | hn
    · simp
    · rw [hnext]
      refine ⟨Nat.div_le_div_right (Nat.le_add_right _ _), ?_⟩
      rw [← Nat.add_div_right _ (by omega : 0 < 2 * n)]
      exact Nat.div_le_div_right (by omega)
  simp only [share]
  split <;> omega

namespace Stepper

theorem totals_le_length (s : Stepper) :
    s.totals.a.natAbs ≤ s.length ∧ s.totals.b.natAbs ≤ s.length :=
  ⟨Nat.le_max_left _ _, Nat.le_max_right _ _⟩

theorem moveAt_le (s : Stepper) (i : Nat) : (s.moveAt i).a.natAbs ≤ 1 ∧ (s.moveAt i).b.natAbs ≤ 1 :=
  ⟨share_succ _ i _ s.totals_le_length.1, share_succ _ i _ s.totals_le_length.2⟩

theorem sum_moveAt (s : Stepper) (n : Nat) :
    ((List.range n).map fun i => (s.moveAt i).a).sum = (s.positionAt n).a ∧
      ((List.range n).map fun i => (s.moveAt i).b).sum = (s.positionAt n).b := by
  induction n with
  | zero => simp [positionAt, share_zero]
  | succ n ih =>
    simp only [List.range_succ, List.map_append, List.sum_append, ih]
    simp [moveAt]

end Stepper

/-! ## Plans -/

theorem Double.roundToCount_le (x : Float) : roundToCount x ≤ maxCount := by
  unfold roundToCount
  split
  · exact Nat.zero_le _
  · split
    · exact Nat.zero_le _
    · exact le_rfl
  · split
    · exact Nat.zero_le _
    · exact Nat.min_le_right _ _

namespace Plan

/-- No step moves a belt by more than one step. -/
def IsUnit (p : Plan) : Prop :=
  ∀ step ∈ p.steps, step.a.natAbs ≤ 1 ∧ step.b.natAbs ≤ 1

theorem totalA_eq_sum (p : Plan) : p.totalA = (p.steps.map Step.a).sum := rfl

theorem totalB_eq_sum (p : Plan) : p.totalB = (p.steps.map Step.b).sum := rfl

theorem duration_eq_sum (p : Plan) : p.duration = (p.steps.map Step.duration).sum := rfl

theorem duration_cons (step : Step) (steps : List Step) :
    (Plan.mk (step :: steps)).duration = step.duration + (Plan.mk steps).duration := rfl

/-- A 64-bit counter holds the time of the plan. -/
def Fits (p : Plan) : Prop :=
  p.duration < 2 ^ 64

instance (p : Plan) : Decidable p.Fits := inferInstanceAs (Decidable (_ < _))

theorem duration_take_le (steps : List Step) {j k : Nat} (h : j ≤ k) :
    (Plan.mk (steps.take j)).duration ≤ (Plan.mk (steps.take k)).duration := by
  obtain ⟨n, rfl⟩ := Nat.exists_eq_add_of_le h
  rw [duration_eq_sum, duration_eq_sum, List.take_add, List.map_append, List.sum_append]
  exact Nat.le_add_right _ _

theorem Fits.take {steps : List Step} {j k : Nat} (hk : Fits ⟨steps.take k⟩) (h : j ≤ k) :
    Fits ⟨steps.take j⟩ :=
  Nat.lt_of_le_of_lt (duration_take_le steps h) hk

end Plan

namespace Stroke

theorem sum_elapsed (total n m : Nat) :
    ((List.range m).map fun i => elapsed total n (i + 1) - elapsed total n i).sum = elapsed total n m := by
  induction m with
  | zero => simp [elapsed]
  | succ m ih =>
    have hmono : elapsed total n m ≤ elapsed total n (m + 1) :=
      Nat.div_le_div_right (Nat.mul_le_mul_left total m.le_succ)
    rw [List.range_succ, List.map_append, List.sum_append, ih]
    simpa using Nat.add_sub_cancel' hmono

variable {s : Stroke} {belts : Belts Float} {plan : Plan}

theorem plan_isUnit (h : s.plan belts = .ok plan) : plan.IsUnit := by
  unfold Stroke.plan at h
  cases hstep : stepper belts (min s.maxSteps maxPlanSteps) s.delta with
  | error refusal => simp [hstep, Except.map] at h
  | ok stepper =>
    rw [hstep] at h
    cases h
    intro step hmem
    obtain ⟨i, -, rfl⟩ := List.mem_map.mp hmem
    exact stepper.moveAt_le i

/-- A stroke has a plan only if its belt travel is finite and short enough; then the plan makes the travel,
rounded once for each belt. -/
theorem plan_totals (h : s.plan belts = .ok plan) :
    Scalar.isFinite (belts.travel s.delta).a = true ∧ Scalar.isFinite (belts.travel s.delta).b = true ∧
    neededSteps (belts.travel s.delta) ≤ maxPlanSteps ∧
    plan.totalA = Scalar.round (belts.travel s.delta).a ∧
    plan.totalB = Scalar.round (belts.travel s.delta).b := by
  unfold Stroke.plan stepper at h
  dsimp only at h
  split at h
  · simp [Except.map] at h
  · rename_i hfinite
    split at h
    · simp [Except.map] at h
    · rename_i hlimit
      cases h
      simp only [Bool.or_eq_true, Bool.not_eq_true', not_or, Bool.not_eq_false] at hfinite
      refine ⟨hfinite.1, hfinite.2, by omega, ?_, ?_⟩
      · rw [Plan.totalA_eq_sum, List.map_map]
        exact ((Stepper.sum_moveAt _ _).1).trans (share_all _ _ (Stepper.totals_le_length _).1)
      · rw [Plan.totalB_eq_sum, List.map_map]
        exact ((Stepper.sum_moveAt _ _).2).trans (share_all _ _ (Stepper.totals_le_length _).2)

theorem plan_duration (h : s.plan belts = .ok plan) (hsteps : plan.steps ≠ []) : plan.duration = s.time := by
  unfold Stroke.plan at h
  cases hstep : stepper belts (min s.maxSteps maxPlanSteps) s.delta with
  | error refusal => simp [hstep, Except.map] at h
  | ok stepper =>
    rw [hstep] at h
    cases h
    have hlength : 0 < stepper.length := by
      apply Nat.pos_of_ne_zero
      intro hzero
      simp [hzero] at hsteps
    rw [Plan.duration_eq_sum, List.map_map]
    exact (sum_elapsed s.time stepper.length stepper.length).trans (Nat.mul_div_cancel _ hlength)

theorem time_le (s : Stroke) : s.time ≤ Double.maxCount := by
  unfold time
  split
  · exact Double.roundToCount_le _
  · exact Nat.zero_le _

theorem plan_fits (h : s.plan belts = .ok plan) : plan.Fits := by
  by_cases hsteps : plan.steps = []
  · rw [Plan.Fits, Plan.duration_eq_sum, hsteps]
    decide
  · rw [Plan.Fits, plan_duration h hsteps]
    exact Nat.lt_succ_of_le s.time_le

end Stroke

end Engraver
