import Engraver.Machine.State
import Engraver.Proofs.Motion.Stepping
import Engraver.Proofs.Number.Arithmetic

/-!
# What a plan makes of a displacement

A plan makes whole steps of what a displacement asks for, so each belt ends up to half a step beside it.
What doubles round on the way there adds little.
-/

namespace Engraver

open Double (value)

namespace Belts

theorem shear_of_square {stepCal skew : Float} (h : (skew == 0) = true) :
    ((ofSkew stepCal skew).shear == 0) = true := by
  have hzero := (Double.zero_mul_beq (x := 3.141592653589793 / 180.0) (by decide +kernel) h).1
  simp only [ofSkew, tangent, hzero, if_true]

theorem travel_close {belts : Belts Float} (hshear : (belts.shear == 0) = true) {d : Point Float}
    (ha : (belts.travel d).a.isFinite = true) (hb : (belts.travel d).b.isFinite = true) :
    |value (belts.travel d).a - (value d.x + value d.y) * value belts.stepCal| ≤
        3 * |(value d.x + value d.y) * value belts.stepCal| / 2 ^ 53 + 2 ^ (-1075 : Int) ∧
      |value (belts.travel d).b - (value d.x - value d.y) * value belts.stepCal| ≤
        3 * |(value d.x - value d.y) * value belts.stepCal| / 2 ^ 53 + 2 ^ (-1075 : Int) := by
  obtain ⟨hsum, -, -⟩ := Double.value_mul ha
  obtain ⟨hdifference, -, -⟩ := Double.value_mul hb
  obtain ⟨hskewed, hy, hsum⟩ := Double.value_add hsum
  obtain ⟨-, -, hdifference⟩ := Double.value_sub hdifference
  obtain ⟨hx, -, -⟩ := Double.value_add hskewed
  have hsame : value (belts.skewed d).x = value d.x :=
    Double.value_add_zero hx (Double.zero_mul_beq hy hshear).2
  rw [hsame] at hsum hdifference
  exact ⟨Double.value_mul_of_close ha hsum, Double.value_mul_of_close hb hdifference⟩

end Belts

namespace Stroke

theorem travel_le {t : OnBelts Float} (ha : t.a.isFinite = true) (hb : t.b.isFinite = true)
    (hlimit : neededSteps t ≤ maxPlanSteps) :
    |value t.a| ≤ maxPlanSteps + 1 / 2 ∧ |value t.b| ≤ maxPlanSteps + 1 / 2 := by
  obtain ⟨ha', hvalueA⟩ := Double.abs_close ha
  obtain ⟨hb', hvalueB⟩ := Double.abs_close hb
  obtain ⟨hlarger, hleA, hleB⟩ := Double.larger_ge ha' hb'
  have hbound := Double.value_le_of_roundToCount hlarger (n := maxPlanSteps) (by decide) hlimit
  rw [hvalueA] at hleA
  rw [hvalueB] at hleB
  exact ⟨hleA.trans hbound, hleB.trans hbound⟩

theorem round_close {t : OnBelts Float} (ha : t.a.isFinite = true) (hb : t.b.isFinite = true)
    (hlimit : neededSteps t ≤ maxPlanSteps) :
    |(Scalar.round t.a : ℚ) - value t.a| ≤ 1 / 2 ∧ |(Scalar.round t.b : ℚ) - value t.b| ≤ 1 / 2 := by
  obtain ⟨hleA, hleB⟩ := travel_le ha hb hlimit
  have hfits : ((maxPlanSteps : ℕ) : ℚ) + 1 / 2 ≤ 2 ^ 62 := by norm_num [maxPlanSteps]
  exact ⟨Double.roundToSteps_close ha (hleA.trans hfits), Double.roundToSteps_close hb (hleB.trans hfits)⟩

end Stroke

/-! ## From place to place -/

/-- The coordinates of a place are numbers no larger than `M` millimetres. -/
structure Point.Within (M : ℚ) (p : Point Float) : Prop where
  finite : p.x.isFinite = true ∧ p.y.isFinite = true
  x : |value p.x| ≤ M
  y : |value p.y| ≤ M

instance (M : ℚ) (p : Point Float) : Decidable (p.Within M) :=
  decidable_of_iff ((p.x.isFinite = true ∧ p.y.isFinite = true) ∧ |value p.x| ≤ M ∧ |value p.y| ≤ M)
    ⟨fun ⟨hfinite, hx, hy⟩ => ⟨hfinite, hx, hy⟩, fun h => ⟨h.finite, h.x, h.y⟩⟩

/-- What one move may leave a belt beside its place, in steps: half a step is rounded off, and a little more
by the doubles. -/
def moveSlack (stepCal M : ℚ) : ℚ :=
  1 / 2 + |stepCal| * M / 2 ^ 49 + 2 ^ (-1075 : Int)

theorem moveSlack_nonneg {stepCal M : ℚ} (hM : 0 ≤ M) : 0 ≤ moveSlack stepCal M := by
  unfold moveSlack
  positivity

theorem steps_close {steps : Int} {travel u w stepCal M : ℚ} (hw : |w| ≤ 4 * M)
    (huw : |w - u| ≤ 3 * M / 2 ^ 53)
    (htravel : |travel - u * stepCal| ≤ 3 * |u * stepCal| / 2 ^ 53 + 2 ^ (-1075 : Int))
    (hsteps : |(steps : ℚ) - travel| ≤ 1 / 2) :
    |(steps : ℚ) - w * stepCal| ≤ moveSlack stepCal M := by
  have hcal := abs_nonneg stepCal
  have hu : |u| ≤ 4 * M + 3 * M / 2 ^ 53 := by
    rw [abs_sub_comm] at huw
    calc |u| = |w + (u - w)| := by congr 1; ring
      _ ≤ |w| + |u - w| := abs_add_le _ _
      _ ≤ 4 * M + 3 * M / 2 ^ 53 := add_le_add hw huw
  have hasked : |u * stepCal - w * stepCal| ≤ 3 * M / 2 ^ 53 * |stepCal| := by
    rw [← sub_mul, abs_mul, abs_sub_comm]
    exact mul_le_mul_of_nonneg_right huw hcal
  have htravelled : |u * stepCal| ≤ (4 * M + 3 * M / 2 ^ 53) * |stepCal| := by
    rw [abs_mul]
    exact mul_le_mul_of_nonneg_right hu hcal
  have hM : 0 ≤ |stepCal| * M := mul_nonneg hcal (by linarith [abs_nonneg w])
  unfold moveSlack
  calc |(steps : ℚ) - w * stepCal|
      = |(steps - travel) + (travel - u * stepCal) + (u * stepCal - w * stepCal)| := by congr 1; ring
    _ ≤ |(steps : ℚ) - travel| + |travel - u * stepCal| + |u * stepCal - w * stepCal| :=
        abs_add_three _ _ _
    _ ≤ 1 / 2 + |stepCal| * M / 2 ^ 49 + 2 ^ (-1075 : Int) := by linarith

theorem Point.Within.moves {M : ℚ} {start delta target : Point Float} (hstart : start.Within M)
    (htarget : target.Within M) (h : target = ⟨start.x + delta.x, start.y + delta.y⟩) :
    |value target.x - value start.x| ≤ 2 * M ∧ |value target.y - value start.y| ≤ 2 * M ∧
      |value target.x - value start.x - value delta.x| ≤ 3 * M / 2 ^ 54 ∧
      |value target.y - value start.y - value delta.y| ≤ 3 * M / 2 ^ 54 := by
  subst h
  have hx := Double.value_add_within htarget.finite.1 htarget.x
  have hy := Double.value_add_within htarget.finite.2 htarget.y
  rw [← sub_sub] at hx hy
  have hfar {a b : ℚ} (ha : |a| ≤ M) (hb : |b| ≤ M) : |a - b| ≤ 2 * M := by
    linarith [abs_sub a b]
  exact ⟨hfar htarget.x hstart.x, hfar htarget.y hstart.y, hx, hy⟩

/-- The plan of a move makes the way between the places that the machine believes in, within the slack. -/
theorem Machine.plan_close {m : Machine} {kind : MoveKind} {delta target : Point Float} {plan : Plan}
    (hplan : m.plan kind delta = .ok plan) (hskew : (m.skew == 0) = true) {M : ℚ}
    (hstart : m.position.Within M) (htarget : target.Within M)
    (h : target = ⟨m.position.x + delta.x, m.position.y + delta.y⟩) :
    let dx := value target.x - value m.position.x
    let dy := value target.y - value m.position.y
    |(plan.totalA : ℚ) - (dx + dy) * value m.stepCal| ≤ moveSlack (value m.stepCal) M ∧
      |(plan.totalB : ℚ) - (dx - dy) * value m.stepCal| ≤ moveSlack (value m.stepCal) M := by
  intro dx dy
  obtain ⟨ha, hb, hlimit, htotalA, htotalB⟩ := Stroke.plan_totals hplan
  obtain ⟨htravelA, htravelB⟩ := Belts.travel_close (Belts.shear_of_square hskew) ha hb
  obtain ⟨hroundA, hroundB⟩ := Stroke.round_close ha hb hlimit
  obtain ⟨hdx, hdy, hx, hy⟩ := hstart.moves htarget h
  rw [← htotalA] at hroundA
  rw [← htotalB] at hroundB
  have hsum : |dx + dy - (value delta.x + value delta.y)| ≤ 3 * M / 2 ^ 53 := by
    rw [add_sub_add_comm]
    exact (abs_add_le _ _).trans (by linarith)
  have hdifference : |dx - dy - (value delta.x - value delta.y)| ≤ 3 * M / 2 ^ 53 := by
    rw [sub_sub_sub_comm]
    exact (abs_sub _ _).trans (by linarith)
  exact ⟨steps_close ((abs_add_le dx dy).trans (by linarith)) hsum htravelA hroundA,
    steps_close ((abs_sub dx dy).trans (by linarith)) hdifference htravelB hroundB⟩

end Engraver
