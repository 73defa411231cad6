import Engraver.Proofs.Machine.Outputs

/-!
# One program after another

A program behind another runs only if the first one completes, and then on the rig that the first one
leaves. A run that does not complete ends at one line, and the lines behind that one might as well not be
there.
-/

namespace Engraver

def Program.append (p q : Program) : Program :=
  ⟨p.lines ++ q.lines⟩

/-- The outcome of a run that was preceded by these answers. -/
def Outcome.after (answers : List Response) : Outcome → Outcome
  | completed more => completed (answers ++ more)
  | terminated line more => terminated line (answers ++ more)

/-- The line at which a run ended; none if it came to the end of its program. -/
def endLine? : Except ExecutionError Outcome → Option Nat
  | .error e => some e.line
  | .ok (.terminated line _) => some line
  | .ok (.completed _) => none

namespace Rig

variable {D : Type} [Driver D]

/-! ## Lines -/

theorem runLines_append (r : Rig D) (answers : List Response) (lines more : List ProgramLine) :
    r.runLines answers (lines ++ more) =
      match r.runLines answers lines with
      | (.ok (.completed answers), after) => after.runLines answers more
      | ended => ended := by
  induction lines generalizing r answers with
  | nil => rfl
  | cons line lines ih =>
    rw [List.cons_append, runLines, runLines]
    rcases r.step line with ⟨e | ⟨answer⟩ | _, after⟩
    · rfl
    · exact ih after _
    · rfl

theorem runLines_after (r : Rig D) (answers more : List Response) (lines : List ProgramLine) :
    r.runLines (answers ++ more) lines =
      ((r.runLines more lines).1.map (Outcome.after answers), (r.runLines more lines).2) := by
  induction lines generalizing r more with
  | nil => rfl
  | cons line lines ih =>
    rw [runLines, runLines]
    rcases r.step line with ⟨e | ⟨answer⟩ | _, after⟩
    · rfl
    · dsimp only
      rw [List.append_assoc, ih]
    · rfl

/-! ## The line at which a run ends -/

theorem step_error_line (r : Rig D) (line : ProgramLine) (e : ExecutionError)
    (h : (r.step line).1 = .error e) : e.line = line.line := by
  cases hs : r.stop.take.1 with
  | true =>
    rw [step_stopped r line hs] at h
    cases h
    rfl
  | false =>
    rw [step_unstopped r line hs] at h
    obtain ⟨cause, rfl⟩ := perform_error _ _ _ e h
    cases cause <;> rfl

theorem runLines_ends (r : Rig D) (answers : List Response) (lines : List ProgramLine) (n : Nat)
    (h : endLine? (r.runLines answers lines).1 = some n) :
    ∃ k line, lines[k]? = some line ∧ line.line = n ∧
      ∀ rest, r.runLines answers (lines.take (k + 1) ++ rest) = r.runLines answers lines := by
  -- The induction is on the lines before the one at which the run ends.
  induction lines generalizing r answers with
  | nil => cases h
  | cons line lines ih =>
    rw [runLines] at h ⊢
    rcases hstep : r.step line with ⟨e | ⟨answer⟩ | _, after⟩ <;> rw [hstep] at h
    · cases h
      refine ⟨0, line, rfl, ?_, ?_⟩
      · exact (step_error_line r line e (by rw [hstep])).symm
      · intro rest
        simp [runLines, hstep]
    · obtain ⟨k, last, hk, hn, hrest⟩ := ih after _ h
      refine ⟨k + 1, last, hk, hn, ?_⟩
      intro rest
      rw [List.take_succ_cons, List.cons_append, runLines, hstep]
      exact hrest rest
    · cases h
      refine ⟨0, line, rfl, rfl, ?_⟩
      intro rest
      simp [runLines, hstep]

/-! ## Programs -/

/-- **Sequential composition and cut-off.** Two programs in one run as the first and then, exactly if that
completes, the second on the rig that it left; the answers stand in order, and the second one's end is the
end. A run that ends by an error or at the final stop is the run of the first program alone: it ends at one
of its lines, and whatever comes after that line, nothing of it has any effect. -/
theorem programs_run_in_sequence (r : Rig D) (p q : Program) :
    (∀ answers after, r.run p = (.ok (.completed answers), after) →
      r.run (p.append q) = ((after.run q).1.map (Outcome.after answers), (after.run q).2)) ∧
    (endsEarly (r.run p).1 = true → r.run (p.append q) = r.run p) ∧
    (endsEarly (r.run p).1 = true → ∃ k line, p.lines[k]? = some line ∧
      endLine? (r.run p).1 = some line.line ∧
      ∀ rest, r.run ⟨p.lines.take (k + 1) ++ rest⟩ = r.run p) := by
  have happend := runLines_append r [] p.lines q.lines
  refine ⟨?_, ?_, ?_⟩
  · intro answers after h
    rw [run] at h
    rw [h] at happend
    rw [run, Program.append, happend, run]
    simpa using runLines_after after answers [] q.lines
  · intro h
    rw [run, Program.append, happend]
    rw [run] at h ⊢
    rcases hrun : r.runLines [] p.lines with ⟨_ | _ | _, after⟩
    · rfl
    · rw [hrun] at h
      cases h
    · rfl
  · intro h
    obtain ⟨n, hn⟩ : ∃ n, endLine? (r.run p).1 = some n := by
      rcases hrun : (r.run p).1 with _ | _ | _
      · exact ⟨_, rfl⟩
      · rw [hrun] at h
        cases h
      · exact ⟨_, rfl⟩
    obtain ⟨k, line, hk, hline, hrest⟩ := runLines_ends r [] p.lines n hn
    exact ⟨k, line, hk, hline ▸ hn, hrest⟩

/-- A program that completes before one that reaches the final stop, and the same two the other way
round. -/
theorem final_stop_in_second_program :
    let p : Program := ⟨[⟨1, .setPosition 7 8⟩, ⟨2, .queryPosition⟩]⟩
    let q : Program := ⟨[⟨1, .setMode .relative⟩, ⟨2, .queryPosition⟩, ⟨3, .stop .final⟩, ⟨4, .home⟩]⟩
    (onNewBoard.run (p.append q)).1 =
      .ok (.terminated 3 [.position ⟨7, 8⟩, .position ⟨7, 8⟩]) ∧
    endsEarly (onNewBoard.run q).1 = true ∧ onNewBoard.run (q.append p) = onNewBoard.run q ∧
    ∃ k line, q.lines[k]? = some line ∧ line.line = 3 ∧
      ∀ rest, onNewBoard.run ⟨q.lines.take (k + 1) ++ rest⟩ = onNewBoard.run q := by
  intro p q
  have hearly : endsEarly (onNewBoard.run q).1 = true := rfl
  have hpq := (programs_run_in_sequence onNewBoard p q).1 [.position ⟨7, 8⟩] _ rfl
  obtain ⟨-, hcut, hline⟩ := programs_run_in_sequence onNewBoard q p
  obtain ⟨k, line, hk, hend, hrest⟩ := hline hearly
  refine ⟨by rw [hpq]; rfl, hearly, hcut hearly, k, line, hk, ?_, hrest⟩
  exact (Option.some.inj hend).symm

end Rig

end Engraver
