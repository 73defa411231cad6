import Engraver.Proofs.Motion.Travel
import Engraver.Proofs.Number.Whole

/-!
# What becomes of a stroke

Whether a stroke has a plan, and how long the plan is, can be read off the exact value of its belt travel. The
steps that are checked against the limit are the steps that are made.
-/

namespace Engraver

open Double (value)

theorem Double.value_larger {x y : Float} (hx : x.isFinite = true) (hy : y.isFinite = true) :
    (Scalar.larger x y).isFinite = true ∧ value (Scalar.larger x y) = max (value x) (value y) := by
  unfold Scalar.larger
  split
  · rename_i h
    exact ⟨hy, (max_eq_right ((lt_iff_value_lt hx hy).mp h).le).symm⟩
  · rename_i h
    exact ⟨hx, (max_eq_left (not_lt.mp (mt (lt_iff_value_lt hx hy).mpr h))).symm⟩

namespace OnBelts

def IsFinite (t : OnBelts Float) : Prop := t.a.isFinite = true ∧ t.b.isFinite = true

instance (t : OnBelts Float) : Decidable t.IsFinite := inferInstanceAs (Decidable (_ ∧ _))

/-- The whole steps nearest to a travel. -/
def counts (t : OnBelts Float) : OnBelts Int :=
  ⟨Rat.roundAway (value t.a), Rat.roundAway (value t.b)⟩

/-- The whole steps nearest to the travel of the busier belt. -/
def needed (t : OnBelts Float) : Int :=
  Rat.roundAway (max |value t.a| |value t.b|)

theorem needed_eq_max (t : OnBelts Float) : t.needed = max t.counts.a.natAbs t.counts.b.natAbs := by
  rw [needed, Rat.roundAway_max_abs, Nat.cast_max, Int.natCast_natAbs, Int.natCast_natAbs]
  rfl

end OnBelts

/-- Where the belts are after the first `k` steps of a plan. -/
def Plan.after (p : Plan) (k : Nat) : OnBelts Int :=
  ⟨((p.steps.take k).map Step.a).sum, ((p.steps.take k).map Step.b).sum⟩

namespace Stroke

/-! ## The check -/

theorem neededSteps_eq {t : OnBelts Float} (ht : t.IsFinite) :
    neededSteps t = min t.needed.toNat Double.maxCount := by
  obtain ⟨ha, hvalueA⟩ := Double.abs_close ht.1
  obtain ⟨hb, hvalueB⟩ := Double.abs_close ht.2
  obtain ⟨hlarger, hvalue⟩ := Double.value_larger ha hb
  change Double.roundToCount _ = _
  rw [Double.roundToCount_eq hlarger, hvalue, hvalueA, hvalueB]
  rfl

theorem lt_neededSteps_iff {t : OnBelts Float} (ht : t.IsFinite) {limit : Nat} (hlimit : limit ≤ maxPlanSteps) :
    limit < neededSteps t ↔ (limit : Int) < t.needed := by
  unfold maxPlanSteps at hlimit
  rw [neededSteps_eq ht, Double.maxCount]
  omega

theorem ofTravel_eq {t : OnBelts Float} (ht : t.IsFinite) (hneeded : t.needed ≤ maxPlanSteps) :
    Stepper.ofTravel t = .ofTotals t.counts.a t.counts.b := by
  have hmax : max t.counts.a.natAbs t.counts.b.natAbs ≤ 4194304 := by
    rw [t.needed_eq_max] at hneeded
    exact_mod_cast hneeded
  have hround {x : Float} (hx : x.isFinite = true) (h : (Rat.roundAway (value x)).natAbs ≤ 4194304) :
      Double.roundToSteps x = Rat.roundAway (value x) := by
    rw [Double.roundToSteps_eq hx, Double.minSteps, Double.maxSteps]
    omega
  exact congrArg₂ Stepper.ofTotals (hround ht.1 ((le_max_left _ _).trans hmax))
    (hround ht.2 ((le_max_right _ _).trans hmax))

/-- The ends of a stroke, with what decides between them told of exact numbers. -/
theorem plan_cases (s : Stroke) (belts : Belts Float) :
    let t := belts.travel s.delta
    let limit := min s.maxSteps maxPlanSteps
    let stepper := Stepper.ofTotals t.counts.a t.counts.b
    (¬ t.IsFinite ∧ s.plan belts = .error (.notFinite s.delta)) ∨
    (t.IsFinite ∧ limit < t.needed ∧
      s.plan belts = .error (.tooLong (min t.needed.toNat Double.maxCount) limit)) ∨
    (t.IsFinite ∧ t.needed ≤ limit ∧
      s.plan belts = .ok ⟨(List.range stepper.length).map (s.stepAt belts stepper s.time)⟩) := by
  intro t limit stepper
  have hplan : s.plan belts = Except.map _ (if (!t.a.isFinite || !t.b.isFinite) = true then _
    else if limit < neededSteps t then _ else _) := rfl
  rw [hplan]
  by_cases ht : t.IsFinite
  · have hfinite : (!t.a.isFinite || !t.b.isFinite) = false := by rw [ht.1, ht.2]; rfl
    have hlimit : limit ≤ maxPlanSteps := Nat.min_le_right _ _
    rw [if_neg (by simp [hfinite])]
    rcases lt_or_ge (limit : Int) t.needed with hlong | hfits
    · rw [if_pos ((lt_neededSteps_iff ht hlimit).mpr hlong), neededSteps_eq ht]
      exact .inr (.inl ⟨ht, hlong, rfl⟩)
    · rw [if_neg (mt (lt_neededSteps_iff ht hlimit).mp (not_lt.mpr hfits)), ofTravel_eq ht (by omega)]
      exact .inr (.inr ⟨ht, hfits, rfl⟩)
  · have hinfinite : (!t.a.isFinite || !t.b.isFinite) = true := by
      by_contra h
      simp only [Bool.or_eq_true, Bool.not_eq_true', not_or, Bool.not_eq_false] at h
      exact ht h
    rw [if_pos hinfinite]
    exact .inl ⟨ht, rfl⟩

theorem of_plan {s : Stroke} {belts : Belts Float} {plan : Plan} (h : s.plan belts = .ok plan) :
    let t := belts.travel s.delta
    let stepper := Stepper.ofTotals t.counts.a t.counts.b
    t.IsFinite ∧ t.needed ≤ min s.maxSteps maxPlanSteps ∧ (stepper.length : Int) = t.needed ∧
      plan = ⟨(List.range stepper.length).map (s.stepAt belts stepper s.time)⟩ := by
  intro t stepper
  obtain ⟨-, hplan⟩ | ⟨-, -, hplan⟩ | ⟨ht, hfits, hplan⟩ := plan_cases s belts
  · cases hplan.symm.trans h
  · cases hplan.symm.trans h
  · exact ⟨ht, hfits, t.needed_eq_max.symm, Except.ok.inj (h.symm.trans hplan)⟩

theorem length_of_plan {s : Stroke} {belts : Belts Float} {plan : Plan} (h : s.plan belts = .ok plan) :
    let t := belts.travel s.delta
    plan.length = max t.counts.a.natAbs t.counts.b.natAbs ∧ plan.length = t.needed ∧
      plan.length ≤ min s.maxSteps maxPlanSteps := by
  intro t
  obtain ⟨-, hlimit, hneeded, rfl⟩ := of_plan h
  rw [Plan.length, List.length_map, List.length_range]
  exact ⟨rfl, hneeded, Nat.cast_le.mp (hneeded.trans_le hlimit)⟩

theorem after_of_plan {s : Stroke} {belts : Belts Float} {plan : Plan} (h : s.plan belts = .ok plan) {k : Nat}
    (hk : k ≤ plan.length) :
    let t := belts.travel s.delta
    plan.after k = (Stepper.ofTotals t.counts.a t.counts.b).positionAt k := by
  intro t
  obtain ⟨-, -, -, rfl⟩ := of_plan h
  rw [Plan.length, List.length_map, List.length_range] at hk
  obtain ⟨hsumA, hsumB⟩ := (Stepper.ofTotals t.counts.a t.counts.b).sum_moveAt k
  rw [Plan.after, ← List.map_take, List.take_range, Nat.min_eq_left hk, List.map_map, List.map_map]
  exact congrArg₂ OnBelts.mk hsumA hsumB

theorem totals_of_plan {s : Stroke} {belts : Belts Float} {plan : Plan} (h : s.plan belts = .ok plan) :
    plan.totalA = (belts.travel s.delta).counts.a ∧ plan.totalB = (belts.travel s.delta).counts.b := by
  obtain ⟨hlength, -⟩ := length_of_plan h
  have hafter := after_of_plan h le_rfl
  rw [Plan.after, Plan.length, List.take_length, ← Plan.length, hlength] at hafter
  obtain ⟨hsumA, hsumB⟩ := OnBelts.mk.inj hafter
  exact ⟨hsumA.trans (share_all _ _ (Nat.le_max_left _ _)), hsumB.trans (share_all _ _ (Nat.le_max_right _ _))⟩

end Stroke

/-! ## On a square gantry -/

theorem count_of_sum {x y z c : Float} (hz : (z == 0) = true) (hc : 0 ≤ value c)
    (h : ((x + z + y) * c).isFinite = true)
    (hfits : (Rat.roundAway (value ((x + z + y) * c))).natAbs ≤ Double.maxCount) :
    (Rat.roundAway (value ((x + z + y) * c))).natAbs = Double.roundToCount (Scalar.abs (x + y) * c) := by
  obtain ⟨hsum, -, -⟩ := Double.value_mul h
  obtain ⟨hskewed, hy, -⟩ := Double.value_add hsum
  obtain ⟨hx, -, -⟩ := Double.value_add hskewed
  obtain ⟨hsum', hvalue⟩ := Double.value_add_congr hx (Double.value_add_zero hx hz).symm hsum
  obtain ⟨hproduct, hvalue'⟩ := Double.value_mul_congr hsum' hvalue h
  obtain ⟨hfinite, hsize⟩ := Double.value_abs_mul hproduct hc
  rw [Double.roundToCount_eq hfinite, hsize, hvalue', Rat.roundAway_abs, Int.abs_eq_natAbs,
    Int.toNat_natCast, Nat.min_eq_left hfits]

namespace Belts

theorem counts_of_square {stepCal skew : Float} (hskew : (skew == 0) = true) (hcal : 0 < stepCal)
    {d : Point Float} (ht : ((ofSkew stepCal skew).travel d).IsFinite)
    (hneeded : ((ofSkew stepCal skew).travel d).needed ≤ maxPlanSteps) :
    let t := (ofSkew stepCal skew).travel d
    t.counts.a.natAbs = Double.roundToCount (Scalar.abs (d.x + d.y) * stepCal) ∧
      t.counts.b.natAbs = Double.roundToCount (Scalar.abs (d.x - d.y) * stepCal) := by
  intro t
  obtain ⟨hsum, hfiniteCal, -⟩ := Double.value_mul ht.1
  obtain ⟨-, hy, -⟩ := Double.value_add hsum
  change stepCal.isFinite = true at hfiniteCal
  change d.y.isFinite = true at hy
  have hshear : ((ofSkew stepCal skew).shear == 0) = true := shear_of_square hskew
  have hzero := (Double.zero_mul_beq hy hshear).2
  obtain ⟨hfinite, hvalue⟩ := Double.value_zero
  have hc : 0 ≤ value stepCal := by
    rw [Double.lt_iff_value_lt hfinite hfiniteCal, hvalue] at hcal
    exact hcal.le
  have hmax : max t.counts.a.natAbs t.counts.b.natAbs ≤ Double.maxCount := by
    rw [t.needed_eq_max] at hneeded
    exact (Nat.cast_le.mp hneeded).trans (by decide)
  refine ⟨count_of_sum hzero hc ht.1 ((le_max_left _ _).trans hmax), ?_⟩
  -- A difference is a sum with the opposite, so that belt B is belt A for a stroke down the bed.
  have hdifference : t.b = (d.x + d.y * (ofSkew stepCal skew).shear + -d.y) * stepCal :=
    congrArg (· * stepCal) (Double.sub_eq_add hy)
  have hb := ht.2
  have hfits := (le_max_right _ _).trans hmax
  change t.b.isFinite = true at hb
  change (Rat.roundAway (value t.b)).natAbs ≤ _ at hfits
  change (Rat.roundAway (value t.b)).natAbs = _
  rw [hdifference] at hb hfits ⊢
  rw [Double.sub_eq_add hy]
  exact count_of_sum hzero hc hb hfits

end Belts

namespace Stroke

/-- **What becomes of a stroke.** It is refused as not finite if the travel of a belt is; else as too long if
the nearest whole steps of the larger travel pass the limit; else it has a plan, which makes on each belt the
whole steps nearest to its travel, one at most in each step, and has just the steps that were checked. On a
square gantry these are the nearest to the sum and the difference of the sides. -/
theorem outcome_is_exact (s : Stroke) (belts : Belts Float) :
    let t := belts.travel s.delta
    let limit := min s.maxSteps maxPlanSteps
    let needed := Rat.roundAway (max |value t.a| |value t.b|)
    (s.plan belts = .error (.notFinite s.delta) ↔ ¬ (t.a.isFinite = true ∧ t.b.isFinite = true)) ∧
    (s.plan belts = .error (.tooLong (min needed.toNat Double.maxCount) limit) ↔
      (t.a.isFinite = true ∧ t.b.isFinite = true) ∧ limit < needed) ∧
    ((∃ plan, s.plan belts = .ok plan) ↔ (t.a.isFinite = true ∧ t.b.isFinite = true) ∧ needed ≤ limit) ∧
    ∀ plan, s.plan belts = .ok plan →
      plan.length = max (Rat.roundAway (value t.a)).natAbs (Rat.roundAway (value t.b)).natAbs ∧
      plan.length = needed ∧ plan.length ≤ limit ∧
      (∀ step ∈ plan.steps, step.a ∈ ({-1, 0, 1} : Set Int) ∧ step.b ∈ ({-1, 0, 1} : Set Int)) ∧
      plan.totalA = Rat.roundAway (value t.a) ∧ plan.totalB = Rat.roundAway (value t.b) ∧
      ∀ stepCal skew, belts = .ofSkew stepCal skew → (skew == 0) = true → 0 < stepCal →
        plan.totalA.natAbs = Double.roundToCount (Scalar.abs (s.delta.x + s.delta.y) * stepCal) ∧
        plan.totalB.natAbs = Double.roundToCount (Scalar.abs (s.delta.x - s.delta.y) * stepCal) := by
  intro t limit needed
  refine and_assoc.mp (and_assoc.mp ⟨?_, fun plan h => ?_⟩)
  · obtain ⟨ht, hplan⟩ | ⟨ht, hlong, hplan⟩ | ⟨ht, hfits, hplan⟩ := plan_cases s belts
    all_goals rw [hplan]
    · exact ⟨⟨iff_of_true rfl ht, iff_of_false (by simp) fun h => ht h.1⟩, iff_of_false (by simp) fun h => ht h.1⟩
    · exact ⟨⟨iff_of_false (by simp) (not_not.mpr ht), iff_of_true rfl ⟨ht, hlong⟩⟩,
        iff_of_false (by simp) fun h => not_le.mpr hlong h.2⟩
    · exact ⟨⟨iff_of_false (by simp) (not_not.mpr ht), iff_of_false (by simp) fun h => not_le.mpr h.2 hfits⟩,
        iff_of_true ⟨_, rfl⟩ ⟨ht, hfits⟩⟩
  · obtain ⟨ht, hneeded, -, -⟩ := of_plan h
    obtain ⟨hcounts, hlength, hlimit⟩ := length_of_plan h
    obtain ⟨htotalA, htotalB⟩ := totals_of_plan h
    refine ⟨hcounts, hlength, hlimit, ?_, htotalA, htotalB, ?_⟩
    · intro step hstep
      obtain ⟨hunitA, hunitB⟩ := plan_isUnit h step hstep
      simp only [Set.mem_insert_iff, Set.mem_singleton_iff]
      omega
    · rintro stepCal skew rfl hskew hcal
      rw [htotalA, htotalB]
      exact Belts.counts_of_square hskew hcal ht
        (hneeded.trans (Nat.cast_le.mpr (Nat.min_le_right _ _)))

/-- On the default drive a stroke of just the steps that are allowed, one of half a step more, and one whose
travel overflows. -/
theorem outcome_at_limit :
    let belts := Belts.ofSkew 10 0
    let within : Stroke := ⟨⟨0, 0⟩, ⟨3, -1⟩, 1, .off, 40⟩
    let past : Stroke := ⟨⟨0, 0⟩, ⟨3, -1.05⟩, 1, .off, 40⟩
    let wild : Stroke := ⟨⟨0, 0⟩, ⟨1.7e308, 1.7e308⟩, 1, .off, 40⟩
    ((0 : Float) == 0) = true ∧ (0 : Float) < 10 ∧
      (∃ plan, within.plan belts = .ok plan ∧ plan.length = (40 : Int) ∧
        plan.totalA.natAbs = Double.roundToCount (Scalar.abs (3 + -1) * 10) ∧
        plan.totalB.natAbs = Double.roundToCount (Scalar.abs (3 - -1) * 10)) ∧
      past.plan belts = .error (.tooLong 41 40) ∧ wild.plan belts = .error (.notFinite wild.delta) := by
  intro belts within past wild
  have hskew : ((0 : Float) == 0) = true := by decide +kernel
  have hcal : (0 : Float) < 10 := by decide +kernel
  refine ⟨hskew, hcal, ?_, ?_, ?_⟩
  · obtain ⟨-, -, hsome, hplans⟩ := outcome_is_exact within belts
    have hfinite : (belts.travel within.delta).a.isFinite = true ∧ (belts.travel within.delta).b.isFinite = true :=
      ⟨by decide +kernel, by decide +kernel⟩
    have hneeded : Rat.roundAway (max |value (belts.travel within.delta).a| |value (belts.travel within.delta).b|) =
        40 := by decide +kernel
    obtain ⟨plan, hplan⟩ := hsome.mpr ⟨hfinite, by rw [hneeded]; decide⟩
    obtain ⟨-, hlength, -, -, -, -, hsquare⟩ := hplans plan hplan
    exact ⟨plan, hplan, hlength.trans hneeded, hsquare 10 0 rfl hskew hcal⟩
  · obtain ⟨-, hlong, -⟩ := outcome_is_exact past belts
    have hfinite : (belts.travel past.delta).a.isFinite = true ∧ (belts.travel past.delta).b.isFinite = true :=
      ⟨by decide +kernel, by decide +kernel⟩
    have hneeded : Rat.roundAway (max |value (belts.travel past.delta).a| |value (belts.travel past.delta).b|) =
        41 := by decide +kernel
    rw [hneeded] at hlong
    exact hlong.mpr ⟨hfinite, by decide⟩
  · obtain ⟨hwild, -⟩ := outcome_is_exact wild belts
    have hinfinite : (belts.travel wild.delta).a.isFinite = false := by decide +kernel
    exact hwild.mpr fun h => Bool.false_ne_true (hinfinite ▸ h.1)

end Stroke

end Engraver
