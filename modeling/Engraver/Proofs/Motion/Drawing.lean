import Engraver.Proofs.Motion.Outcome
import Engraver.Proofs.Motion.Spreading

/-!
# The drawn line

The laser is decided where the steps that were made have taken the head. Those places lie close to the straight
line: in exact arithmetic the belts are never more than one step off it.
-/

namespace Engraver

open Double (value)

/-! ## Off the line -/

/-- A share of a rounded travel is within one step of the share of the travel: the rounding of the travel and
that of the share are off by half a step each. -/
theorem share_near {x : ℚ} {k n : Nat} (hk : k ≤ n) (h : (Rat.roundAway x).natAbs ≤ n) :
    |(share (Rat.roundAway x) k n : ℚ) - x * k / n| ≤ 1 := by
  rcases Nat.eq_zero_or_pos n with rfl | hn
  · have hnone : Rat.roundAway x = 0 := by omega
    rw [hnone, share_of_nothing, Nat.cast_zero, div_zero, Int.cast_zero, sub_zero, abs_zero]
    exact zero_le_one
  · have hpos : (0 : ℚ) < n := Nat.cast_pos.mpr hn
    have hpath : |(share (Rat.roundAway x) k n : ℚ) - Rat.roundAway x * k / n| ≤ 1 / 2 := by
      have hshare : |2 * n * (share (Rat.roundAway x) k n : ℚ) - 2 * k * (Rat.roundAway x : ℚ)| ≤ n := by
        exact_mod_cast share_close k h
      have hfactor : (share (Rat.roundAway x) k n : ℚ) - Rat.roundAway x * k / n =
          (2 * n * (share (Rat.roundAway x) k n : ℚ) - 2 * k * (Rat.roundAway x : ℚ)) / (2 * n) := by
        field_simp
      rw [hfactor, abs_div, abs_of_pos (by positivity : (0 : ℚ) < 2 * n), div_le_iff₀ (by positivity)]
      linarith
    have hround : |(Rat.roundAway x : ℚ) * k / n - x * k / n| ≤ 1 / 2 := by
      have hpart : (k : ℚ) / n ≤ 1 := (div_le_one hpos).mpr (Nat.cast_le.mpr hk)
      rw [mul_div_assoc, mul_div_assoc, ← sub_mul, abs_mul, abs_of_nonneg (by positivity : (0 : ℚ) ≤ k / n)]
      exact (mul_le_of_le_one_right (abs_nonneg _) hpart).trans (Rat.roundAway_close x)
    calc |(share (Rat.roundAway x) k n : ℚ) - x * k / n|
        ≤ |(share (Rat.roundAway x) k n : ℚ) - Rat.roundAway x * k / n| +
            |(Rat.roundAway x : ℚ) * k / n - x * k / n| := abs_sub_le _ _ _
      _ ≤ 1 := by linarith

/-! ## Exact belts -/

namespace Belts

variable {belts : Belts ℚ}

theorem displacement_eq (hcal : 0 < belts.stepCal) (t : OnBelts ℚ) :
    belts.displacement t =
      ⟨(t.a + t.b) / (2 * belts.stepCal) - (t.a - t.b) / (2 * belts.stepCal) * belts.shear,
        (t.a - t.b) / (2 * belts.stepCal)⟩ := by
  have hzero : ¬ Scalar.isZero belts.stepCal = true := by
    change ¬ (belts.stepCal == 0) = true
    simpa using hcal.ne'
  have htwo : (2.0 : ℚ) = 2 := by norm_num
  rw [displacement, if_neg hzero]
  change (⟨(t.a + t.b) / ((2.0 : ℚ) * _) - (t.a - t.b) / ((2.0 : ℚ) * _) * _, (t.a - t.b) / ((2.0 : ℚ) * _)⟩ :
    Point ℚ) = _
  rw [htwo]

theorem travel_eq (belts : Belts ℚ) (d : Point ℚ) :
    belts.travel d = ⟨(d.x + d.y * belts.shear + d.y) * belts.stepCal,
      (d.x + d.y * belts.shear - d.y) * belts.stepCal⟩ := rfl

theorem displacement_travel (hcal : 0 < belts.stepCal) (d : Point ℚ) : belts.displacement (belts.travel d) = d := by
  have hne := hcal.ne'
  rw [displacement_eq hcal, travel_eq]
  obtain ⟨x, y⟩ := d
  congr 1
  · field_simp
    ring
  · field_simp
    ring

theorem travel_displacement (hcal : 0 < belts.stepCal) (t : OnBelts ℚ) : belts.travel (belts.displacement t) = t := by
  have hne := hcal.ne'
  rw [displacement_eq hcal, travel_eq]
  obtain ⟨a, b⟩ := t
  congr 1
  · field_simp
    ring
  · field_simp
    ring

theorem displacement_share (hcal : 0 < belts.stepCal) (t : OnBelts ℚ) (k n : ℚ) :
    belts.displacement ⟨t.a * k / n, t.b * k / n⟩ =
      ⟨(belts.displacement t).x * k / n, (belts.displacement t).y * k / n⟩ := by
  rw [displacement_eq hcal, displacement_eq hcal]
  congr 1 <;> ring

/-- Two places that are no further apart than the head moves by one step of each belt: in y by the length of a
step, in x by the shear of that besides. -/
structure Near (belts : Belts ℚ) (p q : Point ℚ) : Prop where
  x : |p.x - q.x| ≤ (1 + |belts.shear|) / belts.stepCal
  y : |p.y - q.y| ≤ 1 / belts.stepCal

theorem displacement_near (hcal : 0 < belts.stepCal) {t u : OnBelts ℚ} (ha : |t.a - u.a| ≤ 1)
    (hb : |t.b - u.b| ≤ 1) : belts.Near (belts.displacement t) (belts.displacement u) := by
  have hdouble : 0 < 2 * belts.stepCal := by linarith
  have hhalf {z : ℚ} (hz : |z| ≤ 2) : |z / (2 * belts.stepCal)| ≤ 1 / belts.stepCal := by
    rw [abs_div, abs_of_pos hdouble, div_le_div_iff₀ hdouble hcal]
    nlinarith
  have hsum : |(t.a - u.a + (t.b - u.b)) / (2 * belts.stepCal)| ≤ 1 / belts.stepCal :=
    hhalf ((abs_add_le _ _).trans (by linarith))
  have hdifference : |(t.a - u.a - (t.b - u.b)) / (2 * belts.stepCal)| ≤ 1 / belts.stepCal :=
    hhalf ((abs_sub _ _).trans (by linarith))
  have hsheared : |(t.a - u.a - (t.b - u.b)) / (2 * belts.stepCal) * belts.shear| ≤
      1 / belts.stepCal * |belts.shear| := by
    rw [abs_mul]
    exact mul_le_mul_of_nonneg_right hdifference (abs_nonneg _)
  rw [displacement_eq hcal, displacement_eq hcal]
  constructor
  · calc |(t.a + t.b) / (2 * belts.stepCal) - (t.a - t.b) / (2 * belts.stepCal) * belts.shear -
          ((u.a + u.b) / (2 * belts.stepCal) - (u.a - u.b) / (2 * belts.stepCal) * belts.shear)|
        = |(t.a - u.a + (t.b - u.b)) / (2 * belts.stepCal) -
          (t.a - u.a - (t.b - u.b)) / (2 * belts.stepCal) * belts.shear| := by ring_nf
      _ ≤ 1 / belts.stepCal + 1 / belts.stepCal * |belts.shear| :=
          (abs_sub _ _).trans (add_le_add hsum hsheared)
      _ = (1 + |belts.shear|) / belts.stepCal := by ring
  · calc |(t.a - t.b) / (2 * belts.stepCal) - (u.a - u.b) / (2 * belts.stepCal)|
        = |(t.a - u.a - (t.b - u.b)) / (2 * belts.stepCal)| := by ring_nf
      _ ≤ 1 / belts.stepCal := hdifference

/-- Where the head is when it has started at a place and the belts have moved. -/
def reach (belts : Belts ℚ) (start : Point ℚ) (t : OnBelts ℚ) : Point ℚ :=
  ⟨start.x + (belts.displacement t).x, start.y + (belts.displacement t).y⟩

end Belts

/-- The point at `k / n` of the straight line. -/
def Point.along (start delta : Point ℚ) (k n : Nat) : Point ℚ :=
  ⟨start.x + delta.x * k / n, start.y + delta.y * k / n⟩

theorem Belts.reach_near {belts : Belts ℚ} (hcal : 0 < belts.stepCal) (start delta : Point ℚ) {t : OnBelts ℚ}
    {k n : Nat} (ha : |t.a - (belts.travel delta).a * k / n| ≤ 1)
    (hb : |t.b - (belts.travel delta).b * k / n| ≤ 1) : belts.Near (belts.reach start t) (start.along delta k n) := by
  have hnear : belts.Near (belts.displacement t) _ :=
    displacement_near hcal (u := ⟨(belts.travel delta).a * k / n, (belts.travel delta).b * k / n⟩) ha hb
  rw [displacement_share hcal, displacement_travel hcal] at hnear
  constructor
  · rw [reach, Point.along, add_sub_add_left_eq_sub]
    exact hnear.x
  · rw [reach, Point.along, add_sub_add_left_eq_sub]
    exact hnear.y

/-! ## Doubles as rationals -/

/-- A place whose doubles are read as rationals. -/
def Point.exact (p : Point Float) : Point ℚ :=
  ⟨value p.x, value p.y⟩

def OnBelts.exact (t : OnBelts Float) : OnBelts ℚ :=
  ⟨value t.a, value t.b⟩

def Belts.exact (belts : Belts Float) : Belts ℚ :=
  ⟨value belts.stepCal, value belts.shear⟩

def OnBelts.whole (t : OnBelts Int) : OnBelts ℚ :=
  ⟨t.a, t.b⟩

theorem Beam.fires_through_iff (raster : Raster) (threshold : UInt8) (p : Point Float) :
    (Beam.through raster threshold).fires p = true ↔
      raster.sample p.x p.y ≠ 0 ∧ threshold ≤ raster.sample p.x p.y := by
  rw [fires, Bool.and_eq_true, decide_eq_true_iff, decide_eq_true_iff, UInt8.pos_iff_ne_zero]

namespace Stroke

/-! ## Exact strokes -/

theorem stepper_exact {belts : Belts ℚ} {limit : Nat} {delta : Point ℚ} {stepper : Stepper}
    (h : Stroke.stepper belts limit delta = .ok stepper) :
    stepper = .ofTotals (Rat.roundAway (belts.travel delta).a) (Rat.roundAway (belts.travel delta).b) := by
  unfold Stroke.stepper at h
  dsimp only at h
  split at h
  · cases h
  · split at h
    · cases h
    · exact (Except.ok.inj h).symm

theorem take_near {belts : Belts ℚ} {limit : Nat} {delta : Point ℚ} {stepper : Stepper}
    (h : Stroke.stepper belts limit delta = .ok stepper) {k : Nat} (hk : k ≤ stepper.length) :
    let t := belts.travel delta
    let moved := OnBelts.sum (stepper.take k).1
    |(moved.a : ℚ) - t.a * k / stepper.length| ≤ 1 ∧ |(moved.b : ℚ) - t.b * k / stepper.length| ≤ 1 := by
  obtain rfl := stepper_exact h
  intro t moved
  have hmoved : moved = (Stepper.ofTotals (Rat.roundAway t.a) (Rat.roundAway t.b)).positionAt k :=
    (Stepper.take_first rfl hk).2
  rw [hmoved]
  exact ⟨share_near hk (le_max_left _ _), share_near hk (le_max_right _ _)⟩

/-! ## The plan of a stroke -/

variable {s : Stroke} {belts : Belts Float} {plan : Plan}

/-- The laser is decided where the steps of the plan have taken the head, this step among them. -/
theorem laser_of_plan (h : s.plan belts = .ok plan) (i : Nat) (hi : i < plan.steps.length) :
    plan.steps[i].laser = s.beam.fires (s.place belts (plan.after (i + 1))) := by
  rw [after_of_plan h hi]
  obtain ⟨-, -, -, rfl⟩ := of_plan h
  rw [List.getElem_map, List.getElem_range]
  rfl

theorem after_near (h : s.plan belts = .ok plan) {k : Nat} (hk : k ≤ plan.length) :
    let t := belts.travel s.delta
    |((plan.after k).a : ℚ) - value t.a * k / plan.length| ≤ 1 ∧
      |((plan.after k).b : ℚ) - value t.b * k / plan.length| ≤ 1 := by
  intro t
  obtain ⟨hlength, -⟩ := length_of_plan h
  rw [after_of_plan h hk, hlength]
  rw [hlength] at hk
  exact ⟨share_near hk (le_max_left _ _), share_near hk (le_max_right _ _)⟩

/-- **The drawn line.** Over a raster each step of a plan fires where the raster, at the place to which the
steps up to this one have taken the head, is not dark and reaches the threshold. These steps are never more
than one step off their share of the travel, so that with the calibration and the shear read as rationals the
place is near the straight line of the displacement that the travel makes. In exact arithmetic that
displacement is the one that was asked for, and the place is near the straight line to the target. -/
theorem laser_follows_drawn_line {raster : Raster} {threshold : UInt8} (h : s.plan belts = .ok plan)
    (hbeam : s.beam = .through raster threshold) :
    let n := plan.length
    let t := belts.travel s.delta
    (∀ (i : Nat) (hi : i < plan.steps.length),
      let moved := plan.after (i + 1)
      let d := belts.displacement ⟨(moved.a : Float), (moved.b : Float)⟩
      let sample := raster.sample (s.start.x + d.x) (s.start.y + d.y)
      plan.steps[i].laser = true ↔ sample ≠ 0 ∧ threshold ≤ sample) ∧
    (∀ k ≤ n, |((plan.after k).a : ℚ) - value t.a * k / n| ≤ 1 ∧
      |((plan.after k).b : ℚ) - value t.b * k / n| ≤ 1 ∧
      (0 < belts.exact.stepCal →
        belts.exact.Near (belts.exact.reach s.start.exact (plan.after k).whole)
          (s.start.exact.along (belts.exact.displacement t.exact) k n))) ∧
    ∀ ideal : Belts ℚ, 0 < ideal.stepCal →
      (∀ d, ideal.displacement (ideal.travel d) = d) ∧ (∀ t, ideal.travel (ideal.displacement t) = t) ∧
      ∀ (limit : Nat) (start delta : Point ℚ) (stepper : Stepper),
        Stroke.stepper ideal limit delta = .ok stepper → ∀ k ≤ stepper.length,
          let moved := OnBelts.sum (stepper.take k).1
          |(moved.a : ℚ) - (ideal.travel delta).a * k / stepper.length| ≤ 1 ∧
          |(moved.b : ℚ) - (ideal.travel delta).b * k / stepper.length| ≤ 1 ∧
          ideal.Near (ideal.reach start moved.whole) (start.along delta k stepper.length) := by
  intro n t
  refine ⟨fun i hi => ?_, fun k hk => ?_, fun ideal hcal => ⟨?_, ?_, ?_⟩⟩
  · rw [laser_of_plan h i hi, hbeam]
    exact Beam.fires_through_iff raster threshold _
  · obtain ⟨ha, hb⟩ := after_near h hk
    refine ⟨ha, hb, fun hcal => Belts.reach_near hcal _ _ ?_ ?_⟩
    · rw [Belts.travel_displacement hcal]
      exact ha
    · rw [Belts.travel_displacement hcal]
      exact hb
  · exact Belts.displacement_travel hcal
  · exact Belts.travel_displacement hcal
  · intro limit start delta stepper hstepper k hk moved
    obtain ⟨ha, hb⟩ := take_near hstepper hk
    exact ⟨ha, hb, Belts.reach_near hcal start delta ha hb⟩

theorem ok_of_toOption {ε α : Type} {x : Except ε α} {a : α} (h : x.toOption = some a) : x = .ok a := by
  cases x with
  | error e => cases h
  | ok b => rw [Option.some.inj h]

/-- On a gantry that leans by half, a stroke straight up the bed: the belts lag and lead, and the head comes to
each row in its column. -/
theorem laser_up_leaning_gantry :
    let belts : Belts Float := ⟨1, 0.5⟩
    let raster : Raster := ⟨⟨1, 5, #[0, 0, 127, 128, 255]⟩, 1⟩
    let stroke : Stroke := ⟨⟨0.5, 0.5⟩, ⟨0, 4⟩, 10, .through raster 128, 100⟩
    let plan : Plan := ⟨[⟨1, 0, false, 66666⟩, ⟨1, -1, false, 66667⟩, ⟨1, 0, false, 66667⟩, ⟨1, 0, true, 66666⟩,
      ⟨1, -1, true, 66667⟩, ⟨1, 0, true, 66667⟩]⟩
    let ideal : Belts ℚ := ⟨1, 1 / 2⟩
    let stepper := Stepper.ofTotals 6 (-2)
    stroke.plan belts = .ok plan ∧ stroke.beam = .through raster 128 ∧ plan.after 4 = ⟨4, -1⟩ ∧
      raster.sample 0.75 3 = 128 ∧ plan.steps[3].laser = true ∧ |(4 : ℚ) - 6 * 4 / 6| ≤ 1 ∧
      |(-1 : ℚ) - -2 * 4 / 6| ≤ 1 ∧ 0 < belts.exact.stepCal ∧
      belts.exact.Near ⟨3 / 4, 3⟩ (stroke.start.exact.along (belts.exact.displacement ⟨6, -2⟩) 4 6) ∧
      0 < ideal.stepCal ∧ ideal.displacement (ideal.travel ⟨0, 4⟩) = ⟨0, 4⟩ ∧
      Stroke.stepper ideal 100 ⟨0, 4⟩ = .ok stepper ∧ ideal.Near ⟨3 / 4, 3⟩ ⟨1 / 2, 1 / 2 + 4 * 4 / 6⟩ := by
  intro belts raster stroke plan ideal stepper
  have hplan : stroke.plan belts = .ok plan := ok_of_toOption (by decide +kernel)
  have hcal : 0 < belts.exact.stepCal := by decide +kernel
  have hideal : 0 < ideal.stepCal := one_pos
  have hstepper : Stroke.stepper ideal 100 ⟨0, 4⟩ = .ok stepper := ok_of_toOption (by decide +kernel)
  have hsample : raster.sample 0.75 3 = 128 := by decide +kernel
  obtain ⟨hlaser, hsteps, hdrawn⟩ := laser_follows_drawn_line hplan rfl
  have hlit : plan.steps[3].laser = true := by
    refine (hlaser 3 (by decide)).mpr ⟨?_, ?_⟩ <;> decide +kernel
  have hmoved : plan.after 4 = ⟨4, -1⟩ := by decide +kernel
  have htravel : (belts.travel stroke.delta).exact = ⟨6, -2⟩ := by decide +kernel
  have ha : value (belts.travel stroke.delta).a = 6 := congrArg OnBelts.a htravel
  have hb : value (belts.travel stroke.delta).b = -2 := congrArg OnBelts.b htravel
  have hreach : belts.exact.reach stroke.start.exact (OnBelts.whole ⟨4, -1⟩) = ⟨3 / 4, 3⟩ := by decide +kernel
  obtain ⟨hstepsA, hstepsB, hnear⟩ := hsteps 4 (by decide)
  rw [hmoved, ha] at hstepsA
  rw [hmoved, hb] at hstepsB
  have hplace := hnear hcal
  rw [hmoved, hreach, htravel] at hplace
  have hfour : OnBelts.sum (stepper.take 4).1 = ⟨4, -1⟩ := by decide +kernel
  have hpoint : ideal.reach ⟨1 / 2, 1 / 2⟩ (OnBelts.whole ⟨4, -1⟩) = ⟨3 / 4, 3⟩ := by decide +kernel
  have hgoal : (⟨1 / 2, 1 / 2⟩ : Point ℚ).along ⟨0, 4⟩ 4 6 = ⟨1 / 2, 1 / 2 + 4 * 4 / 6⟩ := by decide +kernel
  obtain ⟨hback, -, hexact⟩ := hdrawn ideal hideal
  obtain ⟨-, -, hline⟩ := hexact 100 ⟨1 / 2, 1 / 2⟩ ⟨0, 4⟩ stepper hstepper 4 (by decide)
  rw [hfour, hpoint] at hline
  exact ⟨hplan, rfl, hmoved, hsample, hlit, hstepsA, hstepsB, hcal, hplace, hideal, hback _, hstepper,
    hgoal ▸ hline⟩

end Stroke

end Engraver
