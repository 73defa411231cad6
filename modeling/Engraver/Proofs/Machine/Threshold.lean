import Engraver.Proofs.Machine.Artwork
import Engraver.Proofs.Motion.Drawing
import Engraver.Proofs.Raster.Sampling

/-!
# Raising the threshold

The threshold of a stroke decides where the laser fires and nothing else. A higher one takes lit steps away and
adds none. No threshold lights a step off the mask, and with the laser off the plan is the same plan, unlit.
-/

namespace Engraver

/-- The second step is the first with the laser as it was or off. -/
structure Step.Dims (bright dim : Step) : Prop where
  unlit : dim.unlit = bright.unlit
  laser : dim.laser = true → bright.laser = true

namespace Beam

theorem fires_of_le {raster : Raster} {low high : UInt8} (h : low ≤ high) {p : Point Float}
    (hfires : (through raster high).fires p = true) : (through raster low).fires p = true := by
  rw [fires_through_iff] at hfires ⊢
  exact ⟨hfires.1, UInt8.le_trans h hfires.2⟩

theorem fires_zero (raster : Raster) (p : Point Float) :
    (through raster 0).fires p = (through raster 1).fires p := by
  rw [Bool.eq_iff_iff, fires_through_iff, fires_through_iff]
  generalize raster.sample p.x p.y = intensity
  rw [UInt8.le_iff_toNat_le, UInt8.le_iff_toNat_le, ← UInt8.toNat_inj.ne]
  simp only [UInt8.toNat_ofNat]
  omega

theorem dark_off_mask {raster : Raster} (hwidth : raster.mask.width ≤ Double.maxCount)
    (hheight : raster.mask.height ≤ Double.maxCount) (threshold : UInt8) {p : Point Float}
    (h : ¬ raster.Covers p) : (through raster threshold).fires p = false := by
  rw [← Bool.not_eq_true, fires_through_iff, Raster.sample_off_mask hwidth hheight h]
  exact fun hlit => hlit.1 rfl

end Beam

namespace Stroke

def showing (s : Stroke) (raster : Raster) (threshold : UInt8) : Stroke :=
  { s with beam := .through raster threshold }

def unlit (s : Stroke) : Stroke :=
  { s with beam := .off }

theorem plan_of_beams (s : Stroke) (belts : Belts Float) :
    (∃ refusal, ∀ beam, ({ s with beam } : Stroke).plan belts = .error refusal) ∨
    ∃ stepper : Stepper, ∀ beam, ({ s with beam } : Stroke).plan belts =
      .ok ⟨(List.range stepper.length).map (({ s with beam } : Stroke).stepAt belts stepper s.time)⟩ := by
  cases h : stepper belts (min s.maxSteps maxPlanSteps) s.delta with
  | error refusal =>
    left
    refine ⟨refusal, fun beam => ?_⟩
    unfold plan
    rw [h]
    rfl
  | ok stepper =>
    right
    refine ⟨stepper, fun beam => ?_⟩
    unfold plan
    rw [h]
    rfl

theorem plan_beam_congr (s : Stroke) (belts : Belts Float) {beam beam' : Beam} (h : beam.fires = beam'.fires) :
    ({ s with beam } : Stroke).plan belts = ({ s with beam := beam' } : Stroke).plan belts := by
  have hstep (stepper : Stepper) : ({ s with beam } : Stroke).stepAt belts stepper s.time =
      ({ s with beam := beam' } : Stroke).stepAt belts stepper s.time := by
    unfold stepAt
    rw [h]
    rfl
  rcases s.plan_of_beams belts with ⟨refusal, hrefused⟩ | ⟨stepper, hplans⟩
  · rw [hrefused, hrefused]
  · rw [hplans, hplans, hstep]

theorem stepAt_dims (s : Stroke) (belts : Belts Float) (raster : Raster) {low high : UInt8} (h : low ≤ high)
    (stepper : Stepper) (total i : Nat) :
    Step.Dims ((s.showing raster low).stepAt belts stepper total i)
      ((s.showing raster high).stepAt belts stepper total i) :=
  ⟨rfl, Beam.fires_of_le h⟩

/-- **Raising the threshold only takes lit steps away.** Over one picture a stroke is refused alike with a low
threshold and with a high one, or it has two plans that agree step by step but for the laser, which fires with the
high threshold only where it fires with the low one. The thresholds 0 and 1 give the same plan. With the laser off
the stroke comes to the same refusal or to the same plan, unlit. And a step that takes the head off the mask is
dark, whatever the threshold. -/
theorem threshold_only_removes (s : Stroke) (belts : Belts Float) (raster : Raster) :
    (∀ low high : UInt8, low ≤ high →
      (∃ refusal, (s.showing raster low).plan belts = .error refusal ∧
        (s.showing raster high).plan belts = .error refusal) ∨
      ∃ bright dim, (s.showing raster low).plan belts = .ok bright ∧
        (s.showing raster high).plan belts = .ok dim ∧ List.Forall₂ Step.Dims bright.steps dim.steps) ∧
    (s.showing raster 0).plan belts = (s.showing raster 1).plan belts ∧
    (∀ threshold, s.unlit.plan belts = ((s.showing raster threshold).plan belts).map Plan.unlit) ∧
    (raster.mask.width ≤ Double.maxCount → raster.mask.height ≤ Double.maxCount →
      ∀ threshold plan, (s.showing raster threshold).plan belts = .ok plan →
        ∀ (i : Nat) (hi : i < plan.steps.length),
          ¬ raster.Covers (s.place belts (plan.after (i + 1))) → plan.steps[i].laser = false) := by
  refine ⟨fun low high hle => ?_, ?_, fun threshold => ?_, fun hwidth hheight threshold plan hplan i hi hoff => ?_⟩
  · rcases s.plan_of_beams belts with ⟨refusal, hrefused⟩ | ⟨stepper, hplans⟩
    · exact .inl ⟨refusal, hrefused _, hrefused _⟩
    · refine .inr ⟨_, _, hplans _, hplans _, ?_⟩
      rw [List.forall₂_map_left_iff, List.forall₂_map_right_iff, List.forall₂_same]
      exact fun i _ => stepAt_dims s belts raster hle stepper s.time i
  · exact s.plan_beam_congr belts (funext (Beam.fires_zero raster))
  · rw [← s.unlit.plan_of_dark belts fun _ => rfl]
    exact plan_unlit_congr (s.showing raster threshold) belts s.start .off
  · rw [laser_of_plan hplan]
    exact Beam.dark_off_mask hwidth hheight threshold hoff

/-- Over a mask of three rows, a stroke that ends in the fifth: the high threshold takes one of three lit steps
away, and what lies past the mask is dark. -/
theorem threshold_past_short_mask :
    let belts : Belts Float := ⟨1, 0.5⟩
    let raster : Raster := ⟨⟨1, 3, #[127, 128, 255]⟩, 1⟩
    let stroke : Stroke := ⟨⟨0.5, 0.5⟩, ⟨0, 4⟩, 10, .off, 100⟩
    let bright : Plan := ⟨[⟨1, 0, true, 66666⟩, ⟨1, -1, true, 66667⟩, ⟨1, 0, true, 66667⟩, ⟨1, 0, false, 66666⟩,
      ⟨1, -1, false, 66667⟩, ⟨1, 0, false, 66667⟩]⟩
    let dim : Plan := ⟨[⟨1, 0, false, 66666⟩, ⟨1, -1, true, 66667⟩, ⟨1, 0, true, 66667⟩, ⟨1, 0, false, 66666⟩,
      ⟨1, -1, false, 66667⟩, ⟨1, 0, false, 66667⟩]⟩
    (128 : UInt8) ≤ 200 ∧ raster.mask.width ≤ Double.maxCount ∧ raster.mask.height ≤ Double.maxCount ∧
      (stroke.showing raster 128).plan belts = .ok bright ∧ (stroke.showing raster 200).plan belts = .ok dim ∧
      List.Forall₂ Step.Dims bright.steps dim.steps ∧ stroke.unlit.plan belts = .ok bright.unlit ∧
      ¬ raster.Covers (stroke.place belts (bright.after 4)) ∧ bright.steps[3].laser = false := by
  intro belts raster stroke bright dim
  have hle : (128 : UInt8) ≤ 200 := by decide
  have hwidth : raster.mask.width ≤ Double.maxCount := by decide
  have hheight : raster.mask.height ≤ Double.maxCount := by decide
  have hbright : (stroke.showing raster 128).plan belts = .ok bright := ok_of_toOption (by decide +kernel)
  have hdim : (stroke.showing raster 200).plan belts = .ok dim := ok_of_toOption (by decide +kernel)
  have hoff : ¬ raster.Covers (stroke.place belts (bright.after 4)) := by decide +kernel
  obtain ⟨hdims, -, hunlit, hdark⟩ := threshold_only_removes stroke belts raster
  refine ⟨hle, hwidth, hheight, hbright, hdim, ?_, ?_, hoff,
    hdark hwidth hheight 128 bright hbright 3 (by decide) hoff⟩
  · rcases hdims 128 200 hle with ⟨_, hrefused, -⟩ | ⟨_, _, hlow, hhigh, hsteps⟩
    · cases hrefused.symm.trans hbright
    · obtain rfl := Except.ok.inj (hlow.symm.trans hbright)
      obtain rfl := Except.ok.inj (hhigh.symm.trans hdim)
      exact hsteps
  · rw [hunlit 128, hbright]
    rfl

end Stroke

end Engraver
