import Engraver.Proofs.Hardware.Reckoning
import Engraver.Proofs.Motion.Outcome
import Engraver.Proofs.Number.Words

/-!
# The time of a stroke

The steps of a plan share the time of the stroke as whole microseconds, none of which is lost or made up. The
sums of a plan and of the board stay in words of 64 bits, however slow the stroke is.
-/

namespace Engraver

namespace Stroke

/-! ## Shares of the time -/

theorem elapsed_mono (total n i : Nat) : elapsed total n i ≤ elapsed total n (i + 1) :=
  Nat.div_le_div_right (Nat.mul_le_mul_left total i.le_succ)

theorem elapsed_le (total : Nat) {n k : Nat} (hk : k ≤ n) : elapsed total n k ≤ total := by
  rcases Nat.eq_zero_or_pos n with rfl | hn
  · simp [elapsed]
  · calc elapsed total n k ≤ total * n / n := Nat.div_le_div_right (Nat.mul_le_mul_left total hk)
      _ = total := Nat.mul_div_cancel total hn

theorem elapsed_growth (total i : Nat) {n : Nat} (hn : 0 < n) :
    elapsed total n (i + 1) - elapsed total n i = total / n ∨
      elapsed total n (i + 1) - elapsed total n i = total / n + 1 := by
  unfold elapsed
  rw [Nat.mul_succ, Nat.add_div hn, Nat.add_assoc, Nat.add_sub_cancel_left]
  split
  · exact .inr rfl
  · exact .inl rfl

/-- `elapsed` in words: the product in 128 bits, the time in 64. -/
def elapsed? (total n k : Nat) : Option Nat := do
  let product ← Word.count? 128 (total * k)
  let quotient ← Word.quotient? product n
  Word.count? 64 quotient

def duration? (total n i : Nat) : Option Nat := do
  let next ← Word.count? 64 (i + 1)
  let after ← elapsed? total n next
  let before ← elapsed? total n i
  Word.difference? after before

theorem bind_elapsed? {α : Type} {total n k : Nat} (htotal : total < 2 ^ 64) (hk : k ≤ n) (hpos : 0 < n)
    (hn : n < 2 ^ 64) (f : Nat → Option α) : (elapsed? total n k >>= f) = f (elapsed total n k) := by
  have hproduct : total * k < 2 ^ 128 := by
    calc total * k < 2 ^ 64 * 2 ^ 64 := Nat.mul_lt_mul'' htotal (by omega)
      _ = 2 ^ 128 := by norm_num
  have hfits : total * k / n < 2 ^ 64 := (elapsed_le total hk).trans_lt htotal
  rw [elapsed?, bind_assoc, Word.bind_count? hproduct, bind_assoc, Word.bind_quotient? hpos, Word.bind_count? hfits]
  rfl

theorem duration?_eq {total n i : Nat} (htotal : total < 2 ^ 64) (hi : i < n) (hn : n < 2 ^ 64) :
    duration? total n i = some (elapsed total n (i + 1) - elapsed total n i) := by
  have hpos : 0 < n := by omega
  rw [duration?, Word.bind_count? (by omega), bind_elapsed? htotal hi hpos hn,
    bind_elapsed? htotal (by omega) hpos hn, Word.difference?_eq (elapsed_mono total n i)]

variable {s : Stroke} {belts : Belts Float} {plan : Plan}

theorem sum_take_duration (h : s.plan belts = .ok plan) {k : Nat} (hk : k ≤ plan.length) :
    ((plan.steps.take k).map Step.duration).sum = s.time * k / plan.length := by
  obtain ⟨-, -, -, rfl⟩ := of_plan h
  rw [Plan.length, List.length_map, List.length_range] at hk ⊢
  rw [← List.map_take, List.take_range, Nat.min_eq_left hk, List.map_map]
  exact sum_elapsed _ _ k

theorem duration_of_plan (h : s.plan belts = .ok plan) (i : Nat) (hi : i < plan.steps.length) :
    plan.steps[i].duration = elapsed s.time plan.length (i + 1) - elapsed s.time plan.length i := by
  obtain ⟨-, -, -, rfl⟩ := of_plan h
  rw [List.getElem_map, List.getElem_range, Plan.length, List.length_map, List.length_range]
  rfl

/-- **The time of a stroke.** The first `k` of `n` steps of a plan take `⌊T * k / n⌋` microseconds, so all of
them take `T`, and each takes `⌊T / n⌋` or one more. Worked in words, with products of 128 bits, the times of
the steps and their sums are exact, for the plan as for what a board takes of it. -/
theorem steps_share_time (h : s.plan belts = .ok plan) (hsteps : plan.steps ≠ []) :
    let T := if 0 < s.speed then Double.roundToCount (Double.length s.delta.x s.delta.y / s.speed * 1e6) else 0
    let n := plan.length
    T < 2 ^ 64 ∧
    (∀ k ≤ n, ((plan.steps.take k).map Step.duration).sum = T * k / n) ∧
    plan.duration = T ∧
    (∀ step ∈ plan.steps, step.duration = T / n ∨ step.duration = T / n + 1) ∧
    (∀ (i : Nat) (hi : i < plan.steps.length), duration? T n i = some plan.steps[i].duration) ∧
    Word.sum? 64 (plan.steps.map Step.duration) = some plan.duration ∧
    ∀ board : Board, ∃ record, (board.run plan).2.records = board.records ++ [record] ∧
      record.plan = plan ∧ record.executed ≤ n ∧ record.elapsed = T * record.executed / n ∧
      Word.sum? 64 ((plan.steps.take record.executed).map Step.duration) = some record.elapsed := by
  intro T n
  have hT : T < 2 ^ 64 := Nat.lt_succ_of_le s.time_le
  have hn : 0 < n := List.length_pos_of_ne_nil hsteps
  have hlength : n ≤ maxPlanSteps := (length_of_plan h).2.2.trans (Nat.min_le_right _ _)
  have hwords {k : Nat} (hk : k ≤ n) : T * k / n < 2 ^ 64 := (elapsed_le T hk).trans_lt hT
  refine ⟨hT, fun k hk => sum_take_duration h hk, plan_duration h hsteps, fun step hstep => ?_, fun i hi => ?_, ?_,
    fun board => ?_⟩
  · obtain ⟨i, hi, rfl⟩ := List.getElem_of_mem hstep
    rw [duration_of_plan h]
    exact elapsed_growth T i hn
  · rw [duration_of_plan h]
    exact duration?_eq hT hi (by unfold maxPlanSteps at hlength; omega)
  · rw [Plan.duration_eq_sum]
    refine Word.sum?_eq ?_
    rw [← Plan.duration_eq_sum, plan_duration h hsteps]
    exact hT
  · obtain ⟨executed, hexecuted, -, -, hrecorded⟩ := board.run_moved plan
    obtain ⟨code, hcode⟩ := board.run_answers (plan_fits h)
    rw [hcode] at hrecorded
    have hsum := sum_take_duration h hexecuted
    refine ⟨_, hrecorded.2, rfl, hexecuted, hsum, Word.sum?_eq ?_⟩
    rw [hsum]
    exact hwords hexecuted

/-- Forty steps share the longest time that a counter holds, which stands for a stroke that is slower still. -/
theorem time_of_slowest_stroke :
    let belts := Belts.ofSkew 10 0
    let stroke : Stroke := ⟨⟨0, 0⟩, ⟨3, -1⟩, 1e-300, .off, 40⟩
    ∃ plan, stroke.plan belts = .ok plan ∧ plan.steps ≠ [] ∧ plan.length = 40 ∧
      plan.duration = 18446744073709551615 ∧
      ((plan.steps.take 39).map Step.duration).sum = 17985575471866812824 ∧
      (∀ step ∈ plan.steps, step.duration = 461168601842738790 ∨ step.duration = 461168601842738791) ∧
      Word.sum? 64 (plan.steps.map Step.duration) = some 18446744073709551615 := by
  intro belts stroke
  have hlength : ((stroke.plan belts).map Plan.length).toOption = some 40 := by decide +kernel
  have htime : stroke.time = 18446744073709551615 := by decide +kernel
  cases hplan : stroke.plan belts with
  | error refusal =>
    rw [hplan] at hlength
    cases hlength
  | ok plan =>
    rw [hplan] at hlength
    have hforty : plan.length = 40 := Option.some.inj hlength
    have hsteps : plan.steps ≠ [] := List.ne_nil_of_length_pos (by rw [← Plan.length, hforty]; decide)
    obtain ⟨-, hfirst, hall, heach, -, hsum, -⟩ := steps_share_time hplan hsteps
    change ∀ k ≤ plan.length, _ = stroke.time * k / plan.length at hfirst
    change plan.duration = stroke.time at hall
    change ∀ step ∈ plan.steps,
      step.duration = stroke.time / plan.length ∨ step.duration = stroke.time / plan.length + 1 at heach
    rw [hforty, htime] at hfirst heach
    rw [htime] at hall
    exact ⟨plan, rfl, hsteps, hforty, hall, hfirst 39 (by decide), heach, hall ▸ hsum⟩

end Stroke

end Engraver
