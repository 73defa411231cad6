import Engraver.Proofs.Machine.Drift
import Engraver.Proofs.Session.Calls

/-!
# Sessions let rounding add up

Between a homing and the next no session keeps the head within a step of the position that it reports. But
it strays by no more than half a step with each move, and what doubles round.
-/

namespace Engraver

open Driver (serve)
open Double (value)

namespace Session

variable {stepCal : Float} {M : ℚ} {moves : Nat} {s : Session Handle}

/-! ## One operation -/

theorem powerDown_near (h : s.rig.Near stepCal M moves) : s.powerDown.rig.Near stepCal M moves := by
  unfold powerDown
  split
  · exact h
  · have hshut := h.stays (Rig.shutDown_stays s.rig)
      (Rig.truthful_of_worked (Rig.shutDown_quiet s.rig).worked h.truthful)
    obtain ⟨-, ha, hb⟩ := Handle.serve_stays s.rig.shutDown.driver .release (by simp) (by simp)
    exact hshut.stays ⟨ha, hb, rfl, rfl, rfl⟩ (hshut.truthful.serve .release)

theorem apply_near (h : s.rig.Near stepCal M moves) (op : Op) (hop : ∀ picture, op ≠ .restart picture)
    (ht : ∀ t ∈ s.turns op, t.Orderly M) :
    (s.apply op).rig.Near stepCal M (moves + (s.turns op).countP Turn.completesMove) := by
  have hdoes := apply_does s op
  cases htask : op.task with
  | lines lines =>
    rw [apply_rig s htask]
    cases hs : s.isActive with
    | true =>
      rw [turns_lines htask hs] at ht ⊢
      exact Rig.turns_near h lines ht
    | false =>
      rw [turns_idle hs]
      exact h
  | reject e =>
    simp only [htask, Does] at hdoes
    simp only [hdoes, turns, htask]
    split
    · exact h.aborted _
    · exact h
  | adjust =>
    obtain ⟨mode, raster, stop, happly⟩ := apply_adjusts s op htask
    simp only [happly, turns, htask]
    exact h.stays ⟨rfl, rfl, rfl, rfl, rfl⟩ h.truthful
  | shutDown =>
    simp only [htask, Does] at hdoes
    simp only [hdoes, turns, htask]
    exact powerDown_near h
  | restart picture => exact absurd (eq_restart htask) (hop picture)

/-! ## One operation after the other -/

theorem after_near (h : s.rig.Near stepCal M moves) (ops : List Op)
    (hops : ∀ picture, .restart picture ∉ ops) (ht : ∀ t ∈ s.allTurns ops, t.Orderly M) :
    (s.after ops).rig.Near stepCal M (moves + (s.allTurns ops).countP Turn.completesMove) := by
  induction ops generalizing s moves with
  | nil => exact h
  | cons op ops ih =>
    have hturns : s.allTurns (op :: ops) = s.turns op ++ (s.apply op).allTurns ops := rfl
    rw [hturns] at ht ⊢
    rw [List.countP_append, ← Nat.add_assoc]
    refine ih (apply_near h op ?_ ?_) ?_ ?_
    · rintro picture rfl
      exact hops picture List.mem_cons_self
    · exact fun t hmem => ht t (List.mem_append_left _ hmem)
    · exact fun picture hmem => hops picture (List.mem_cons_of_mem _ hmem)
    · exact fun t hmem => ht t (List.mem_append_right _ hmem)

theorem home_ok {s : Session Handle} (h : s.home.1.isOk = true) :
    s.rig.looked.home.1.isOk = true ∧ (s.apply .home).rig = s.rig.looked.home.2 := by
  simp only [apply, home, execute] at h ⊢
  cases hs : s.isActive with
  | false => simp [hs, Except.isOk, Except.toBool] at h
  | true =>
    cases hstop : s.rig.stop.take.1 with
    | true => simp [hs, Rig.step_stopped _ _ hstop, Except.isOk, Except.toBool] at h
    | false =>
      simp only [hs, Bool.not_true, Bool.false_eq_true, if_false, Rig.step_unstopped _ _ hstop,
        Rig.perform_home] at h ⊢
      cases hhome : s.rig.looked.home.1 with
      | error fault => simp [hhome, Except.mapError, Rig.concluded, Rig.abort, Except.isOk, Except.toBool] at h
      | ok answer => exact ⟨rfl, rfl⟩

/-- **Rounding adds up.** After a homing on a board that answers truthfully, whatever a session without skew
is asked for, short of starting again, setting its position or its calibration, and however many moves
complete, as long as no motion fails: with every move the belts stray from the reported position by half a
step at most, and by what doubles round while all places are within `M` millimetres. -/
theorem drift_grows_with_moves (s : Session Handle) (ops : List Op) (M : ℚ) (hM : 0 ≤ M)
    (htruthful : s.rig.driver.board.IsTruthful) (hsquare : (s.rig.machine.skew == 0) = true)
    (hhome : s.home.1.isOk = true) (hops : ∀ picture, .restart picture ∉ ops)
    (hturns : ∀ t ∈ (s.apply .home).allTurns ops, t.Orderly M) :
    let last := ((s.apply .home).after ops).rig
    let moves := ((s.apply .home).allTurns ops).countP Turn.completesMove
    let x := value last.machine.position.x
    let y := value last.machine.position.y
    let cal := value last.machine.stepCal
    let slack := moves * (1 / 2 + |cal| * M / 2 ^ 49 + 2 ^ (-1075 : Int))
    |last.driver.board.a - (x + y) * cal| ≤ slack ∧ |last.driver.board.b - (x - y) * cal| ≤ slack := by
  intro last moves x y cal slack
  obtain ⟨hok, hrig⟩ := home_ok hhome
  have hhomed := Rig.home_near (r := s.rig.looked) htruthful hsquare hok hM 0
  rw [← hrig] at hhomed
  obtain ⟨-, hcal, -, -, ha, hb⟩ := after_near hhomed ops hops hturns
  rw [Nat.zero_add, ← hcal] at ha hb
  exact ⟨ha, hb⟩

/-- A session with default settings that has just been opened. -/
def onNewBoard : Session Handle where
  settings := {}
  rig := Rig.onNewBoard

/-- Half a step alone would not do, not even for one move: 0.15 is read as a little less than it is, but its
product with 10 is rounded to 1.5. -/
example :
    let last := ((onNewBoard.apply .home).after [.moveTo 0.15 0 none]).rig
    1 / 2 < |last.driver.board.a - (value last.machine.position.x + value last.machine.position.y) *
      value last.machine.stepCal| := by
  decide +kernel

/-- Three relative moves of four hundredths of a millimetre, and back to an absolute place. -/
theorem drift_after_four_moves :
    let hop : Command := .move .rapid (some 0.04) none none
    let ops : List Op := [.run ⟨[⟨1, .setMode .relative⟩, ⟨2, hop⟩, ⟨3, hop⟩, ⟨4, hop⟩]⟩, .setAbsolute,
      .moveTo 0.5 0.25 none]
    let last := ((onNewBoard.apply .home).after ops).rig
    let moves := ((onNewBoard.apply .home).allTurns ops).countP Turn.completesMove
    let x := value last.machine.position.x
    let y := value last.machine.position.y
    let cal := value last.machine.stepCal
    let slack := moves * (1 / 2 + |cal| * 1 / 2 ^ 49 + 2 ^ (-1075 : Int))
    moves = 4 ∧ |last.driver.board.a - (x + y) * cal| ≤ slack ∧
      |last.driver.board.b - (x - y) * cal| ≤ slack := by
  intro hop ops
  have h := drift_grows_with_moves onNewBoard ops 1 zero_le_one ⟨by decide +kernel, by decide +kernel⟩
    (by decide +kernel) (by decide +kernel) (by simp [ops]) (by decide +kernel)
  exact ⟨by decide +kernel, h⟩

/-- Three relative moves of four hundredths of a millimetre complete, and no belt has moved: the head is more
than a step away from the position. -/
theorem drift_exceeds_a_step :
    let hop : Command := .move .rapid (some 0.04) none none
    let program : Program := ⟨[⟨1, .home⟩, ⟨2, .setMode .relative⟩, ⟨3, hop⟩, ⟨4, hop⟩, ⟨5, hop⟩]⟩
    let last := (onNewBoard.run program).2.rig
    (onNewBoard.run program).1.isOk = true ∧ last.stats.moves = 3 ∧
      (last.driver.board.settings.stepsPerMm == last.machine.stepCal) = true ∧ (last.machine.skew == 0) = true ∧
      last.driver.board.IsTruthful ∧
      ¬ |last.driver.board.a - (value last.machine.position.x + value last.machine.position.y) *
          value last.machine.stepCal| ≤ 1 := by
  intro hop program last
  exact ⟨by decide +kernel, by decide +kernel, by decide +kernel, by decide +kernel,
    ⟨by decide +kernel, by decide +kernel⟩, by decide +kernel⟩

end Session

end Engraver
