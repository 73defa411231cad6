import Mathlib
import Engraver.Machine.State

/-!
# The limit on a plan

The longest plan that a machine accepts is read off its bed and its calibration, and not off its skew. In exact
arithmetic it is long enough all the same: no line between two places on the bed is refused for its length,
unless no plan at all may be so long.
-/

namespace Engraver

/-! ## Exact arithmetic -/

/-- The nearest whole number to a real, a half going away from zero. -/
noncomputable def roundReal (x : ℝ) : ℤ :=
  if x < 0 then -⌊-x + 1 / 2⌋ else ⌊x + 1 / 2⌋

/-- Reals are exact as rationals are, and the tangent of an angle is one of them. -/
noncomputable instance : Scalar ℝ where
  intCast := Int.cast
  decLt := inferInstance
  decLe := inferInstance
  isFinite _ := true
  isZero x := decide (x = 0)
  round := roundReal
  roundCount x := (roundReal x).toNat
  ceil := Int.ceil
  count x := .ofNat (min ⌊x⌋.toNat Double.maxCount)

namespace Scalar

theorem abs_real (x : ℝ) : Scalar.abs x = |x| := by
  have hzero : (0.0 : ℝ) = 0 := by norm_num
  unfold Scalar.abs
  split
  · rename_i h
    change x < (0.0 : ℝ) at h
    rw [hzero] at h
    exact (abs_of_neg h).symm
  · rename_i h
    change ¬ x < (0.0 : ℝ) at h
    rw [hzero] at h
    exact (abs_of_nonneg (not_lt.mp h)).symm

theorem larger_real (x y : ℝ) : Scalar.larger x y = max x y := by
  unfold Scalar.larger
  split
  · rename_i h
    exact (max_eq_right (le_of_lt h)).symm
  · rename_i h
    exact (max_eq_left (not_lt.mp h)).symm

theorem roundCount_le {x M : ℝ} (hx : 0 ≤ x) (h : x ≤ M) :
    (Scalar.roundCount x : Nat) ≤ (Scalar.ceil M : Int).toNat := by
  change (roundReal x).toNat ≤ ⌈M⌉.toNat
  apply Int.toNat_le_toNat
  rw [roundReal, if_neg (not_lt.mpr hx), Int.floor_le_iff]
  have := Int.le_ceil M
  linarith

end Scalar

namespace Belts

/-- The drive of a gantry that is `skew` degrees off the square, with the tangent itself. -/
noncomputable def ofAngle (stepCal skew : ℝ) : Belts ℝ :=
  ⟨stepCal, Real.tan (skew * (Real.pi / 180))⟩

theorem travel_real (belts : Belts ℝ) (d : Point ℝ) :
    belts.travel d = ⟨(d.x + d.y * belts.shear + d.y) * belts.stepCal,
      (d.x + d.y * belts.shear - d.y) * belts.stepCal⟩ := rfl

theorem travel_le {belts : Belts ℝ} (hcal : 0 < belts.stepCal) (hshear : |belts.shear| ≤ 1) (d : Point ℝ) :
    |(belts.travel d).a| ≤ (|d.x| + 2 * |d.y|) * belts.stepCal ∧
      |(belts.travel d).b| ≤ (|d.x| + 2 * |d.y|) * belts.stepCal := by
  have hskewed : |d.x + d.y * belts.shear| ≤ |d.x| + |d.y| := by
    refine (abs_add_le _ _).trans (add_le_add le_rfl ?_)
    rw [abs_mul]
    exact mul_le_of_le_one_right (abs_nonneg _) hshear
  rw [travel_real, abs_mul, abs_mul, abs_of_pos hcal]
  constructor
  · gcongr
    linarith [abs_add_le (d.x + d.y * belts.shear) d.y]
  · gcongr
    linarith [abs_sub (d.x + d.y * belts.shear) d.y]

end Belts

theorem Machine.stepLimit_real (bed : Point ℝ) (stepCal : ℝ) :
    Machine.stepLimit bed stepCal =
      min (Scalar.ceil (2.0 * (Scalar.abs bed.x + Scalar.abs bed.y) * stepCal)).toNat maxPlanSteps := rfl

theorem Stroke.stepper_real (belts : Belts ℝ) (limit : Nat) (delta : Point ℝ) :
    stepper belts limit delta =
      if limit < neededSteps (belts.travel delta) then
        .error (.tooLong (neededSteps (belts.travel delta)) limit)
      else .ok (.ofTravel (belts.travel delta)) := rfl

/-! ## Strokes on the bed -/

/-- A place on a bed that reaches from the origin to a corner. -/
structure Point.OnBed (p bed : Point ℝ) : Prop where
  x : 0 ≤ p.x ∧ p.x ≤ bed.x
  y : 0 ≤ p.y ∧ p.y ≤ bed.y

theorem Point.OnBed.distance {bed p q : Point ℝ} (hp : p.OnBed bed) (hq : q.OnBed bed) :
    |q.x - p.x| ≤ bed.x ∧ |q.y - p.y| ≤ bed.y := by
  rw [abs_le, abs_le]
  refine ⟨⟨?_, ?_⟩, ?_, ?_⟩ <;> linarith [hp.x.1, hp.x.2, hp.y.1, hp.y.2, hq.x.1, hq.x.2, hq.y.1, hq.y.2]

/-- The bound is on unrounded travels and is rounded up, so that it bounds the rounded ones. -/
theorem neededSteps_le {belts : Belts ℝ} {bed p q : Point ℝ} (hcal : 0 < belts.stepCal)
    (hshear : |belts.shear| ≤ 1) (hp : p.OnBed bed) (hq : q.OnBed bed) :
    Stroke.neededSteps (belts.travel ⟨q.x - p.x, q.y - p.y⟩) ≤
      (Scalar.ceil (2.0 * (Scalar.abs bed.x + Scalar.abs bed.y) * belts.stepCal)).toNat := by
  obtain ⟨hx, hy⟩ := hp.distance hq
  obtain ⟨ha, hb⟩ := Belts.travel_le hcal hshear ⟨q.x - p.x, q.y - p.y⟩
  have htwo : (2.0 : ℝ) = 2 := by norm_num
  have hlongest : (|q.x - p.x| + 2 * |q.y - p.y|) * belts.stepCal ≤ 2 * (|bed.x| + |bed.y|) * belts.stepCal := by
    gcongr
    linarith [le_abs_self bed.x, le_abs_self bed.y, abs_nonneg (q.x - p.x)]
  rw [Stroke.neededSteps, Scalar.abs_real, Scalar.abs_real, Scalar.abs_real, Scalar.abs_real,
    Scalar.larger_real, htwo]
  exact Scalar.roundCount_le (le_max_of_le_left (abs_nonneg _)) ((max_le ha hb).trans hlongest)

/-- **The limit on a plan.** A machine plans a move of either kind by its drive and its limit alone: it is
refused as the drive refuses the displacement, and has a plan otherwise. In exact arithmetic, with a positive
calibration and a skew whose tangent is 1 at most, a line between two places on the bed is refused only for
needing more steps than the longest plan has, and has its totals otherwise. -/
theorem line_on_bed_is_planned {stepCal skew : ℝ} {bed p q : Point ℝ} (hcal : 0 < stepCal)
    (hskew : |Real.tan (skew * (Real.pi / 180))| ≤ 1) (hp : p.OnBed bed) (hq : q.OnBed bed) :
    (∀ (m : Machine) (kind : MoveKind) (delta : Point Float), ∃ drawn : Stepper → Plan,
      m.plan kind delta =
        (Stroke.stepper (.ofSkew m.stepCal m.skew) (min (Machine.stepLimit m.bed m.stepCal) maxPlanSteps)
          delta).map drawn) ∧
    let belts := Belts.ofAngle stepCal skew
    let limit := min (Machine.stepLimit bed stepCal) maxPlanSteps
    let delta : Point ℝ := ⟨q.x - p.x, q.y - p.y⟩
    let needed := Stroke.neededSteps (belts.travel delta)
    Stroke.stepper belts limit delta =
      if maxPlanSteps < needed then .error (.tooLong needed limit) else .ok (.ofTravel (belts.travel delta)) := by
  refine ⟨fun m kind delta => ⟨_, rfl⟩, ?_⟩
  intro belts limit delta needed
  have hneeded : needed ≤ _ := @neededSteps_le belts bed p q hcal hskew hp hq
  have hlimit : limit < needed ↔ maxPlanSteps < needed := by
    rw [min_lt_iff, Machine.stepLimit_real, min_lt_iff, or_assoc, or_self]
    exact or_iff_right (Nat.not_lt.mpr hneeded)
  rw [Stroke.stepper_real]
  simp only [hlimit, needed]

/-- The longest line there is, on a gantry that leans by half a right angle. -/
theorem diagonal_on_bed_is_planned :
    let bed : Point ℝ := ⟨200, 250⟩
    0 < (10 : ℝ) ∧ |Real.tan (45 * (Real.pi / 180))| ≤ 1 ∧ Point.OnBed ⟨0, 0⟩ bed ∧ bed.OnBed bed ∧
      Stroke.stepper (Belts.ofAngle 10 45) (min (Machine.stepLimit bed 10) maxPlanSteps) ⟨200 - 0, 250 - 0⟩ =
        .ok (.ofTravel (⟨7000, 2000⟩ : OnBelts ℝ)) := by
  intro bed
  have htan : Real.tan (45 * (Real.pi / 180)) = 1 := by
    rw [← Real.tan_pi_div_four]
    congr 1
    ring
  have hskew : |Real.tan (45 * (Real.pi / 180))| ≤ 1 := by rw [htan, abs_one]
  have horigin : Point.OnBed ⟨0, 0⟩ bed := by constructor <;> norm_num [bed]
  have hcorner : bed.OnBed bed := by constructor <;> norm_num [bed]
  have htravel : (Belts.ofAngle 10 45).travel ⟨200 - 0, 250 - 0⟩ = ⟨7000, 2000⟩ := by
    rw [Belts.travel_real, Belts.ofAngle, htan]
    norm_num
  have hneeded : Stroke.neededSteps (⟨7000, 2000⟩ : OnBelts ℝ) = 7000 := by
    rw [Stroke.neededSteps, Scalar.larger_real, Scalar.abs_real, Scalar.abs_real]
    have hround : roundReal (max |7000| |2000|) = 7000 := by norm_num [roundReal]
    exact congrArg Int.toNat hround
  have hplanned := (line_on_bed_is_planned (by norm_num : (0 : ℝ) < 10) hskew horigin hcorner).2
  dsimp only [bed] at hplanned
  rw [htravel, hneeded, if_neg (by decide)] at hplanned
  exact ⟨by norm_num, hskew, horigin, hcorner, hplanned⟩

end Engraver
