import Engraver.Proofs.Session.Operations

/-!
# Jobs and plain runs

A job runs its program in a loop of its own, which keeps the record. The record and the plain run are both
read off the same turns, so they tell the same.
-/

namespace Engraver

/-- How a job stands whose run had this outcome. -/
def Outcome.status : Outcome → JobStatus
  | .completed _ => .completed
  | .terminated .. => .terminated

theorem Outcome.status_terminated (outcome : Outcome) :
    (outcome.status == .terminated) = outcome.isTerminated := by
  cases outcome <;> rfl

namespace Job

/-- The record of a job tells how a run ended. -/
def Tells (job : Job) : Except ExecutionError Outcome → Prop
  | .ok outcome =>
    job.status = outcome.status ∧ job.responses = outcome.responses ∧ job.error = none
  | .error e => job.status = .ofError e ∧ job.error = some e

variable {job : Job} {result : Except ExecutionError Outcome}

theorem Tells.completed_iff (h : job.Tells result) :
    job.status = .completed ↔ ∃ answers, result = .ok (.completed answers) := by
  rcases result with (_ | _ | _) | _ | _ <;> simp [h.1, Outcome.status, JobStatus.ofError]

theorem Tells.terminated_iff (h : job.Tells result) :
    job.status = .terminated ↔ ∃ line answers, result = .ok (.terminated line answers) := by
  rcases result with (_ | _ | _) | _ | _ <;> simp [h.1, Outcome.status, JobStatus.ofError]

theorem Tells.stopped_iff (h : job.Tells result) :
    job.status = .stopped ↔ ∃ line, result = .error (.stopRequested line) := by
  rcases result with (_ | _ | _) | _ | _ <;> simp [h.1, Outcome.status, JobStatus.ofError]

theorem Tells.faulted_iff (h : job.Tells result) :
    job.status = .faulted ↔ (∃ line fault, result = .error (.motion line fault)) ∨
      ∃ line refusal, result = .error (.plan line refusal) := by
  rcases result with (_ | _ | _) | _ | _ <;> simp [h.1, Outcome.status, JobStatus.ofError]

end Job

variable {D : Type} [Driver D]

namespace Rig

theorem runJob_tells (r : Rig D) (job : Job) (lines : List ProgramLine) :
    (r.runJob job lines).1.Tells (Turn.outcome job.responses (r.turns lines)) := by
  -- The induction is on the lines: the answers so far are those on the job's record.
  induction lines generalizing r job with
  | nil => exact ⟨rfl, rfl, rfl⟩
  | cons line lines ih =>
    rcases h : r.step line with ⟨e | ⟨answer⟩ | _, after⟩ <;>
      simp only [runJob, turns, turn, Turn.outcome, Turn.goesOn, h]
    · exact ⟨rfl, rfl⟩
    · exact ih after ((job.beginLine line.line).finishLine answer)
    · exact ⟨rfl, by simp [Job.finish, Job.finishLine, Job.beginLine, Outcome.responses], rfl⟩

theorem runJob_agrees (r : Rig D) (job : Job) :
    (r.runJob job.start job.program.lines).1.Tells (r.run job.program).1 ∧
      (r.runJob job.start job.program.lines).2 = (r.run job.program).2 := by
  rw [run_eq]
  exact ⟨runJob_tells r job.start job.program.lines, Session.runJob_rig r job.start job.program.lines⟩

end Rig

namespace Session

/-- An active session answers a job with its status, and all else is as after the plain run. -/
theorem runJob_active (s : Session D) (hs : s.isActive = true) (job : Job) :
    (s.runJob job).1 = .ok (s.runJob job).2.2.status ∧
      (s.runJob job).2.1 = (s.run job.program).2 ∧
      ∃ result, (s.runJob job).2.2.Tells result ∧ (s.run job.program).1 =
        match result with
        | .ok outcome => .ok outcome
        | .error e => .error (.execution e) := by
  obtain ⟨htells, hrig⟩ := s.rig.runJob_agrees job
  simp only [runJob, run, hs, Bool.not_true, Bool.false_eq_true, if_false]
  rcases hrun : s.rig.run job.program with ⟨e | outcome, rig⟩ <;> rw [hrun] at htells hrig
  · refine ⟨trivial, ?_, .error e, htells, rfl⟩
    have hopen : (JobStatus.ofError e == .terminated) = false := by cases e <;> rfl
    simp [hrig, htells.1, hopen]
  · refine ⟨trivial, ?_, .ok outcome, htells, rfl⟩
    simp [hrig, htells.1, Outcome.status_terminated]

/-- **Run and job agree.** On an active session a job and the plain run of its program leave the same
session: state, board with its records, counters, stop requests, log and whether it is terminated. The job
is completed, terminated, stopped or faulted exactly if the run completes, reaches the final stop, is
stopped by a request or fails by a motion or a plan. The job has the answers of a run that ends well and
the error of one that does not. -/
theorem job_agrees_with_run (s : Session D) (hs : s.isActive = true) (job : Job) :
    (s.runJob job).2.1 = (s.run job.program).2 ∧
    (s.runJob job).1 = .ok (s.runJob job).2.2.status ∧
    ((s.runJob job).2.2.status = .completed ↔
      ∃ answers, (s.run job.program).1 = .ok (.completed answers)) ∧
    ((s.runJob job).2.2.status = .terminated ↔
      ∃ line answers, (s.run job.program).1 = .ok (.terminated line answers)) ∧
    ((s.runJob job).2.2.status = .stopped ↔
      ∃ line, (s.run job.program).1 = .error (.execution (.stopRequested line))) ∧
    ((s.runJob job).2.2.status = .faulted ↔
      (∃ line fault, (s.run job.program).1 = .error (.execution (.motion line fault))) ∨
        ∃ line refusal, (s.run job.program).1 = .error (.execution (.plan line refusal))) ∧
    (∀ outcome, (s.run job.program).1 = .ok outcome →
      (s.runJob job).2.2.responses = outcome.responses ∧ (s.runJob job).2.2.error = none) ∧
    ∀ e, (s.run job.program).1 = .error e →
      ∃ cause, e = .execution cause ∧ (s.runJob job).2.2.error = some cause := by
  obtain ⟨hanswer, hsession, result, htells, hresult⟩ := runJob_active s hs job
  refine ⟨hsession, hanswer, ?_, ?_, ?_, ?_, ?_, ?_⟩
  · rw [htells.completed_iff, hresult]
    cases result <;> simp
  · rw [htells.terminated_iff, hresult]
    cases result <;> simp
  · rw [htells.stopped_iff, hresult]
    cases result <;> simp
  · rw [htells.faulted_iff, hresult]
    cases result <;> simp
  · intro outcome hok
    rw [hresult] at hok
    cases result with
    | error e => cases hok
    | ok outcome' =>
      cases hok
      exact htells.2
  · intro e herror
    rw [hresult] at herror
    cases result with
    | error cause =>
      cases herror
      exact ⟨cause, rfl, htells.2⟩
    | ok outcome => cases herror

/-- A query that runs, and a homing that a stop request keeps from running. -/
theorem job_stopped_before_second_line :
    let s : Session Handle :=
      { settings := {}
        rig :=
          { machine := .powerOn {}
            driver := ⟨{ settings := {}, claimed := true }, true⟩
            stop := ⟨false, [false, true]⟩ } }
    let job : Job := .new "query" ⟨[⟨1, .queryPosition⟩, ⟨2, .home⟩]⟩
    (s.runJob job).2.1 = (s.run job.program).2 ∧ (s.runJob job).2.2.status = .stopped ∧
      (s.runJob job).2.2.error = some (.stopRequested 2) ∧
      (s.runJob job).2.2.responses = [.position ⟨0, 0⟩] := by
  intro s job
  have hrun : (s.run job.program).1 = .error (.execution (.stopRequested 2)) := rfl
  obtain ⟨hsession, -, -, -, hstopped, -, -, herror⟩ := job_agrees_with_run s rfl job
  obtain ⟨cause, hcause, hjob⟩ := herror _ hrun
  cases hcause
  exact ⟨hsession, hstopped.mpr ⟨2, hrun⟩, hjob, rfl⟩

end Session

end Engraver
