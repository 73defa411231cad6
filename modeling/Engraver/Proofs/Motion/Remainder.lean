import Engraver.Proofs.Motion.Outcome
import Engraver.Proofs.Motion.Reach

/-!
# What a move leaves over

A move that has a plan is not longer than the longest plan. So what rounding leaves over of it is far less than
half a step, and has the plan without steps.
-/

namespace Engraver

open Double (value overflowBound)

/-! ## In steps -/

theorem tiny_in_steps {c : Float} (hc : c.isFinite = true) : 2 ^ (-1075 : Int) * |value c| ≤ 1 / 2 ^ 51 := by
  have hbound : |value c| ≤ 2 ^ (1024 : Int) :=
    (Double.abs_value_lt hc).le.trans (sub_le_self _ (zpow_nonneg two_pos.le _))
  calc 2 ^ (-1075 : Int) * |value c| ≤ 2 ^ (-1075 : Int) * 2 ^ (1024 : Int) := by gcongr
    _ = 1 / 2 ^ 51 := by
      rw [← zpow_add₀ two_ne_zero]
      norm_num

theorem one_le_overflowBound : 1 ≤ overflowBound :=
  (one_le_zpow₀ one_le_two (by norm_num)).trans Double.two_zpow_970_le_overflowBound

theorem abs_sum_le {x y : Float} {r : ℚ} (h : (x + y).isFinite = true) (hr : |value x + value y| ≤ r) :
    |value (x + y)| ≤ 2 * r :=
  (abs_rounded_le ((Double.value_add h).2.2.trans_eq (add_zero _).symm) hr).trans_eq (add_zero _)

theorem abs_difference_le {x y : Float} {r : ℚ} (h : (x - y).isFinite = true) (hr : |value x - value y| ≤ r) :
    |value (x - y)| ≤ 2 * r :=
  (abs_rounded_le ((Double.value_sub h).2.2.trans_eq (add_zero _).symm) hr).trans_eq (add_zero _)

namespace Belts

variable {belts : Belts Float} {d : Point Float}

/-- How far a displacement is to the belts, at the most, with a shear of `2 ^ 16`. -/
def reachOf (d : Point Float) : ℚ :=
  |value d.x| + 2 ^ 17 * |value d.y|

theorem reach_le {N : ℚ} (ha : (belts.travel d).a.isFinite = true) (hb : (belts.travel d).b.isFinite = true)
    (htravelA : |value (belts.travel d).a| ≤ N) (htravelB : |value (belts.travel d).b| ≤ N) (hN : 1 ≤ N)
    (hshear : |value belts.shear| ≤ 2 ^ 16) :
    belts.AreFinite d ∧ reachOf d * |value belts.stepCal| ≤ 2 ^ 22 * N := by
  obtain ⟨hfinite, hshare, hskewed, hy⟩ := skewed_le ha hb htravelA htravelB hN
  have hshare' := abs_share_le hshare hshear
  have hx := abs_le_of_skewed (value d.x) (value (d.y * belts.shear))
  have hreach : reachOf d ≤ |value d.x + value (d.y * belts.shear)| + 2 ^ 18 * |value d.y| + 2 ^ (-1075 : Int) := by
    unfold reachOf
    linarith
  have hsteps := mul_le_mul_of_nonneg_right hreach (abs_nonneg (value belts.stepCal))
  have htiny := tiny_in_steps hfinite.stepCal
  exact ⟨hfinite, by linarith⟩

theorem travel_of_reach {c u : Float} {R : ℚ} (hu : u.isFinite = true) (hc : c.isFinite = true)
    (hsize : |value u| ≤ 6 * R) (hsteps : R * |value c| ≤ 1 / 32) :
    (u * c).isFinite = true ∧ |value (u * c)| < 1 / 2 := by
  have hproduct : |value u * value c| ≤ 6 / 32 := by
    rw [abs_mul]
    linarith [mul_le_mul_of_nonneg_right hsize (abs_nonneg (value c))]
  have hfinite := Double.isFinite_mul hu hc (hproduct.trans_lt (by linarith [one_le_overflowBound]))
  have hrounded := abs_rounded_le (Double.value_mul hfinite).2.2 hproduct
  exact ⟨hfinite, hrounded.trans_lt (by linarith [half_least_le])⟩

theorem travel_of_small {R : ℚ} (h : belts.AreFinite d) (hshear : |value belts.shear| ≤ 2 ^ 16)
    (hreach : reachOf d + 2 ^ (-1075 : Int) ≤ R) (hR : 4 * R < overflowBound)
    (hsteps : R * |value belts.stepCal| ≤ 1 / 32) :
    (belts.travel d).IsFinite ∧ |value (belts.travel d).a| < 1 / 2 ∧ |value (belts.travel d).b| < 1 / 2 := by
  unfold reachOf at hreach
  have hxPos := abs_nonneg (value d.x)
  have hyPos := abs_nonneg (value d.y)
  have hhalf : (0 : ℚ) < 2 ^ (-1075 : Int) := zpow_pos two_pos _
  have hshare : (d.y * belts.shear).isFinite = true := by
    apply Double.isFinite_mul h.y h.shear
    rw [abs_mul]
    linarith [mul_le_mul_of_nonneg_left hshear hyPos]
  have hshare' := abs_share_le hshare hshear
  have hskewed' : |value d.x + value (d.y * belts.shear)| ≤ R := (abs_add_le _ _).trans (by linarith)
  have hskewed : (d.x + d.y * belts.shear).isFinite = true :=
    Double.isFinite_add h.x hshare (hskewed'.trans_lt (by linarith))
  have hsize := abs_sum_le hskewed hskewed'
  have hsum' : |value (d.x + d.y * belts.shear) + value d.y| ≤ 3 * R := (abs_add_le _ _).trans (by linarith)
  have hdifference' : |value (d.x + d.y * belts.shear) - value d.y| ≤ 3 * R := (abs_sub _ _).trans (by linarith)
  have hsum := Double.isFinite_add hskewed h.y (hsum'.trans_lt (by linarith))
  have hdifference := Double.isFinite_sub hskewed h.y (hdifference'.trans_lt (by linarith))
  obtain ⟨ha, ha'⟩ := travel_of_reach hsum h.stepCal ((abs_sum_le hsum hsum').trans_eq (by ring)) hsteps
  obtain ⟨hb, hb'⟩ :=
    travel_of_reach hdifference h.stepCal ((abs_difference_le hdifference hdifference').trans_eq (by ring)) hsteps
  exact ⟨⟨ha, hb⟩, ha', hb'⟩

end Belts

/-! ## The plan without steps -/

theorem Rat.roundAway_of_small {v : ℚ} (h : |v| < 1 / 2) : Rat.roundAway v = 0 := by
  rw [← abs_eq_zero, ← Rat.roundAway_abs, Rat.roundAway_of_nonneg (abs_nonneg v), Int.floor_eq_zero_iff]
  exact ⟨by linarith [abs_nonneg v], by linarith⟩

theorem Stroke.plan_of_small {s : Stroke} {belts : Belts Float} (ht : (belts.travel s.delta).IsFinite)
    (ha : |value (belts.travel s.delta).a| < 1 / 2) (hb : |value (belts.travel s.delta).b| < 1 / 2) :
    s.plan belts = .ok .empty := by
  have hcounts : (belts.travel s.delta).counts = ⟨0, 0⟩ :=
    congrArg₂ OnBelts.mk (Rat.roundAway_of_small ha) (Rat.roundAway_of_small hb)
  have hneeded : (belts.travel s.delta).needed = 0 := by
    rw [OnBelts.needed_eq_max, hcounts]
    rfl
  obtain ⟨hinfinite, -⟩ | ⟨-, hlong, -⟩ | ⟨-, -, hplan⟩ := s.plan_cases belts
  · exact absurd ht hinfinite
  · rw [hneeded] at hlong
    omega
  · rw [hplan, hcounts]
    rfl

/-- Of a displacement that has a plan a part in `2 ^ 51` has the plan without steps. -/
theorem Machine.plan_of_remainder {m m' : Machine} {kind kind' : MoveKind} {delta rest : Point Float} {plan : Plan}
    (hplan : m.plan kind delta = .ok plan) (hbelts : m'.belts = m.belts)
    (hshear : |value m.belts.shear| ≤ 2 ^ 16) (hx : rest.x.isFinite = true) (hy : rest.y.isFinite = true)
    (hx' : |value rest.x| ≤ |value delta.x| / 2 ^ 51) (hy' : |value rest.y| ≤ |value delta.y| / 2 ^ 51) :
    m'.plan kind' rest = .ok .empty := by
  obtain ⟨ha, hb, hlimit, -, -⟩ := Stroke.plan_totals hplan
  obtain ⟨htravelA, htravelB⟩ := Stroke.travel_le ha hb hlimit
  have hlongest : (1 : ℚ) ≤ maxPlanSteps + 1 / 2 := by norm_num [maxPlanSteps]
  obtain ⟨hfinite, hsteps⟩ : m.belts.AreFinite delta ∧ Belts.reachOf delta * _ ≤ _ :=
    Belts.reach_le ha hb htravelA htravelB hlongest hshear
  have hrest : m.belts.AreFinite rest := ⟨hfinite.stepCal, hfinite.shear, hx, hy⟩
  have hreach : Belts.reachOf rest ≤ Belts.reachOf delta / 2 ^ 51 := by
    unfold Belts.reachOf
    linarith
  have hrange : 4 * (Belts.reachOf delta / 2 ^ 51 + 2 ^ (-1075 : Int)) < overflowBound := by
    have hdx := Double.abs_value_lt hfinite.x
    have hdy := Double.abs_value_lt hfinite.y
    unfold Belts.reachOf
    linarith [half_least_le, one_le_overflowBound]
  have hsmall : (Belts.reachOf delta / 2 ^ 51 + 2 ^ (-1075 : Int)) * |value m.belts.stepCal| ≤ 1 / 32 := by
    have htiny := tiny_in_steps hfinite.stepCal
    norm_num [maxPlanSteps] at hsteps
    rw [add_mul, div_mul_eq_mul_div]
    linarith
  obtain ⟨htravel, htravelA', htravelB'⟩ :=
    Belts.travel_of_small hrest hshear (add_le_add_left hreach _) hrange hsmall
  rw [← hbelts] at htravel htravelA' htravelB'
  exact Stroke.plan_of_small (s := m'.stroke kind' rest) htravel htravelA' htravelB'

end Engraver
