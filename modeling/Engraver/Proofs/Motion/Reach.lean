import Engraver.Proofs.Motion.Travel
import Engraver.Proofs.Number.Range

/-!
# How far a plan goes

No plan has more steps than the longest one. So unless next to no steps make a millimetre, a displacement that
has a plan is far too small to carry a finite place out of the range of doubles.
-/

namespace Engraver

open Double (value)

/-! ## What a rounded number was rounded from -/

theorem abs_le_of_rounded {w v r ε : ℚ} (h : |w - v| ≤ |v| / 2 ^ 53 + ε) (hw : |w| ≤ r) :
    |v| ≤ 2 * (r + ε) := by
  have htriangle : |v| ≤ |w| + |w - v| := by
    calc |v| = |w - (w - v)| := by rw [sub_sub_cancel]
      _ ≤ |w| + |w - v| := abs_sub _ _
  have hpos := abs_nonneg v
  linarith

theorem abs_rounded_le {w v r ε : ℚ} (h : |w - v| ≤ |v| / 2 ^ 53 + ε) (hv : |v| ≤ r) : |w| ≤ 2 * r + ε := by
  have htriangle : |w| ≤ |v| + |w - v| := by
    calc |w| = |v + (w - v)| := by rw [add_sub_cancel]
      _ ≤ |v| + |w - v| := abs_add_le _ _
  have hpos := abs_nonneg v
  linarith

theorem operands_of_sum {x y : Float} {r : ℚ} (h : (x + y).isFinite = true) (hr : |value (x + y)| ≤ r) :
    x.isFinite = true ∧ y.isFinite = true ∧ |value x + value y| ≤ 2 * r := by
  obtain ⟨hx, hy, hclose⟩ := Double.value_add h
  have hsum := abs_le_of_rounded (hclose.trans_eq (add_zero _).symm) hr
  exact ⟨hx, hy, by linarith⟩

theorem operands_of_difference {x y : Float} {r : ℚ} (h : (x - y).isFinite = true)
    (hr : |value (x - y)| ≤ r) : x.isFinite = true ∧ y.isFinite = true ∧ |value x - value y| ≤ 2 * r := by
  obtain ⟨hx, hy, hclose⟩ := Double.value_sub h
  have hdifference := abs_le_of_rounded (hclose.trans_eq (add_zero _).symm) hr
  exact ⟨hx, hy, by linarith⟩

theorem abs_le_of_sum_and_difference {p q r : ℚ} (hsum : |p + q| ≤ r) (hdifference : |p - q| ≤ r) :
    |p| ≤ r ∧ |q| ≤ r := by
  rw [abs_le] at hsum hdifference ⊢
  rw [abs_le]
  constructor <;> constructor <;> linarith [hsum.1, hsum.2, hdifference.1, hdifference.2]

theorem half_least_le : (2 : ℚ) ^ (-1075 : Int) ≤ 1 / 16 := by
  calc (2 : ℚ) ^ (-1075 : Int) ≤ 2 ^ (-4 : Int) := zpow_le_zpow_right₀ one_le_two (by norm_num)
    _ = 1 / 16 := by norm_num

namespace Belts

variable {belts : Belts Float} {d : Point Float} {N B : ℚ}

structure AreFinite (belts : Belts Float) (d : Point Float) : Prop where
  stepCal : belts.stepCal.isFinite = true
  shear : belts.shear.isFinite = true
  x : d.x.isFinite = true
  y : d.y.isFinite = true

theorem asked_le {u c : Float} (h : (u * c).isFinite = true) (htravel : |value (u * c)| ≤ N) (hN : 1 ≤ N) :
    |value u| * |value c| ≤ 4 * N := by
  have hproduct := abs_le_of_rounded (Double.value_mul h).2.2 htravel
  rw [abs_mul] at hproduct
  linarith [half_least_le]

theorem skewed_le (ha : (belts.travel d).a.isFinite = true) (hb : (belts.travel d).b.isFinite = true)
    (htravelA : |value (belts.travel d).a| ≤ N) (htravelB : |value (belts.travel d).b| ≤ N) (hN : 1 ≤ N) :
    belts.AreFinite d ∧ (d.y * belts.shear).isFinite = true ∧
      |value d.x + value (d.y * belts.shear)| * |value belts.stepCal| ≤ 16 * N ∧
      |value d.y| * |value belts.stepCal| ≤ 8 * N := by
  -- Back from the travel, through the sum and the difference, to y and the skewed x, and from there to x.
  obtain ⟨hsum, hcal, -⟩ := Double.value_mul ha
  obtain ⟨hdifference, -, -⟩ := Double.value_mul hb
  have haskedA : |value (d.x + d.y * belts.shear + d.y)| * _ ≤ _ := asked_le ha htravelA hN
  have haskedB : |value (d.x + d.y * belts.shear - d.y)| * _ ≤ _ := asked_le hb htravelB hN
  obtain ⟨hskewed, hy, hsum'⟩ := operands_of_sum (x := d.x + d.y * belts.shear) (y := d.y) hsum le_rfl
  obtain ⟨-, -, hdifference'⟩ :=
    operands_of_difference (x := d.x + d.y * belts.shear) (y := d.y) hdifference le_rfl
  obtain ⟨hx, hshare, hskewed'⟩ := operands_of_sum hskewed le_rfl
  have hcal' := abs_nonneg (value belts.stepCal)
  refine ⟨⟨hcal, (Double.value_mul hshare).2.1, hx, hy⟩, hshare, ?_⟩
  generalize |value belts.stepCal| = K at *
  have hsumK : |value (d.x + d.y * belts.shear) * K + value d.y * K| ≤ 8 * N := by
    rw [← add_mul, abs_mul, abs_of_nonneg hcal']
    linarith [mul_le_mul_of_nonneg_right hsum' hcal']
  have hdifferenceK : |value (d.x + d.y * belts.shear) * K - value d.y * K| ≤ 8 * N := by
    rw [← sub_mul, abs_mul, abs_of_nonneg hcal']
    linarith [mul_le_mul_of_nonneg_right hdifference' hcal']
  obtain ⟨hskewedK, hyK⟩ := abs_le_of_sum_and_difference hsumK hdifferenceK
  rw [abs_mul, abs_of_nonneg hcal'] at hskewedK hyK
  exact ⟨by linarith [mul_le_mul_of_nonneg_right hskewed' hcal'], hyK⟩

theorem abs_share_le {y shear : Float} {s : ℚ} (h : (y * shear).isFinite = true) (hshear : |value shear| ≤ s) :
    |value (y * shear)| ≤ 2 * (s * |value y|) + 2 ^ (-1075 : Int) := by
  apply abs_rounded_le (Double.value_mul h).2.2
  rw [abs_mul, mul_comm]
  exact mul_le_mul_of_nonneg_right hshear (abs_nonneg _)

theorem abs_le_of_skewed (x share : ℚ) : |x| ≤ |x + share| + |share| := by
  calc |x| = |x + share - share| := by rw [add_sub_cancel_right]
    _ ≤ |x + share| + |share| := abs_sub _ _

theorem displacement_le (belts : Belts Float) (ha : (belts.travel d).a.isFinite = true)
    (hb : (belts.travel d).b.isFinite = true) (htravelA : |value (belts.travel d).a| ≤ N)
    (htravelB : |value (belts.travel d).b| ≤ N) (hN : 1 ≤ N) (hcal : 0 < value belts.stepCal)
    (hB : 4 * N ≤ B * value belts.stepCal) (hshear : |value belts.shear| ≤ 1) :
    d.x.isFinite = true ∧ d.y.isFinite = true ∧ |value d.x| ≤ 8 * B + 1 ∧ |value d.y| ≤ 8 * B + 1 := by
  obtain ⟨hfinite, hshare, hskewed, hy⟩ := skewed_le ha hb htravelA htravelB hN
  rw [abs_of_pos hcal] at hskewed hy
  have hskewed' : |value d.x + value (d.y * belts.shear)| ≤ 4 * B :=
    le_of_mul_le_mul_right (by linarith) hcal
  have hy' : |value d.y| ≤ 2 * B := le_of_mul_le_mul_right (by linarith) hcal
  have hshare' := abs_share_le hshare hshear
  have hx := abs_le_of_skewed (value d.x) (value (d.y * belts.shear))
  exact ⟨hfinite.x, hfinite.y, by linarith [half_least_le], by linarith [abs_nonneg (value d.y)]⟩

end Belts

/-! ## From a finite place -/

def Point.IsFinite (p : Point Float) : Prop := p.x.isFinite = true ∧ p.y.isFinite = true

/-- With a calibration of `2 ^ (-900)` or more, a displacement that has a plan leads to a finite place. -/
theorem Machine.target_isFinite {m : Machine} {kind : MoveKind} {delta : Point Float} {plan : Plan}
    (hplan : m.plan kind delta = .ok plan) (hcal : 2 ^ (-900 : Int) ≤ value m.stepCal)
    (hshear : |value m.belts.shear| ≤ 1) (hposition : m.position.IsFinite) :
    Point.IsFinite ⟨m.position.x + delta.x, m.position.y + delta.y⟩ := by
  obtain ⟨ha, hb, hlimit, -, -⟩ := Stroke.plan_totals hplan
  obtain ⟨htravelA, htravelB⟩ := Stroke.travel_le ha hb hlimit
  have hlongest : (1 : ℚ) ≤ maxPlanSteps + 1 / 2 := by norm_num [maxPlanSteps]
  have hleast : (0 : ℚ) < 2 ^ (-900 : Int) := zpow_pos two_pos _
  have hreach : 4 * ((maxPlanSteps : ℚ) + 1 / 2) ≤ 2 ^ (925 : Int) * value m.stepCal := by
    calc 4 * ((maxPlanSteps : ℚ) + 1 / 2) ≤ 2 ^ (25 : Int) := by norm_num [maxPlanSteps]
      _ = 2 ^ (925 : Int) * 2 ^ (-900 : Int) := zpow_add₀ two_ne_zero 925 (-900)
      _ ≤ 2 ^ (925 : Int) * value m.stepCal := mul_le_mul_of_nonneg_left hcal (zpow_nonneg two_pos.le _)
  obtain ⟨hx, hy, hx', hy'⟩ := m.belts.displacement_le ha hb htravelA htravelB hlongest
    (hleast.trans_le hcal) hreach hshear
  have hsmall : 8 * (2 : ℚ) ^ (925 : Int) + 1 < 2 ^ (970 : Int) := by
    have hone : (1 : ℚ) ≤ 2 ^ (925 : Int) := one_le_zpow₀ one_le_two (by norm_num)
    have hpow : (2 : ℚ) ^ (970 : Int) = 2 ^ (45 : Int) * 2 ^ (925 : Int) := zpow_add₀ two_ne_zero 45 925
    rw [hpow]
    generalize (2 : ℚ) ^ (925 : Int) = p at hone ⊢
    norm_num
    linarith
  exact ⟨Double.isFinite_add_of_small hposition.1 hx (hx'.trans_lt hsmall),
    Double.isFinite_add_of_small hposition.2 hy (hy'.trans_lt hsmall)⟩

end Engraver
