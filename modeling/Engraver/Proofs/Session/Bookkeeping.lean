import Engraver.Proofs.Machine.Queries
import Engraver.Proofs.Machine.Sequence
import Engraver.Proofs.Number.Quotient
import Engraver.Proofs.Session.Calls

/-!
# The record of a job

A job writes down where its run is: before a command its line, after it that it ran and what it answered. So
the record tells where the run ended, whichever way it did, and nothing of the runs before.
-/

namespace Engraver

variable {D : Type} [Driver D]

/-- Whether the command of a turn ran without an error; a final stop did. -/
def Turn.ran {D : Type} (t : Turn D) : Bool :=
  t.error?.isNone

/-- What a job has on record besides how it stands, after commands were begun and some of them ran. -/
structure Job.Keeps (before after : Job) (begun ran : List (Turn D)) : Prop where
  program : after.program = before.program
  line : after.currentLine = (begun.getLast?.map fun t => t.line.line).or before.currentLine
  executed : after.executed = before.executed + ran.length
  responses : after.responses = before.responses ++ ran.filterMap Turn.answer?

namespace Rig

/-! ## The commands that ran -/

/-- The turns of the leading commands that ran without an error. -/
def executed (r : Rig D) (lines : List ProgramLine) : List (Turn D) :=
  (r.turns lines).takeWhile Turn.ran

section Executed

variable {r after : Rig D} {line : ProgramLine} (lines : List ProgramLine)

theorem turns_of_error {e : ExecutionError} (h : r.step line = (.error e, after)) :
    r.turns (line :: lines) = [⟨line, r, .error e, after⟩] ∧ r.executed (line :: lines) = [] := by
  simp [executed, turns, turn, Turn.goesOn, Turn.ran, Turn.error?, h]

theorem turns_of_next {answer : Option Response} (h : r.step line = (.ok (.next answer), after)) :
    r.turns (line :: lines) = ⟨line, r, .ok (.next answer), after⟩ :: after.turns lines ∧
      r.executed (line :: lines) = ⟨line, r, .ok (.next answer), after⟩ :: after.executed lines := by
  have hturns : r.turns (line :: lines) = ⟨line, r, .ok (.next answer), after⟩ :: after.turns lines := by
    simp [turns, turn, Turn.goesOn, h]
  refine ⟨hturns, ?_⟩
  rw [executed, hturns, List.takeWhile_cons_of_pos rfl, executed]

theorem turns_of_terminate (h : r.step line = (.ok .terminate, after)) :
    r.turns (line :: lines) = [⟨line, r, .ok .terminate, after⟩] ∧
      r.executed (line :: lines) = [⟨line, r, .ok .terminate, after⟩] := by
  simp [executed, turns, turn, Turn.goesOn, Turn.ran, Turn.error?, h]

end Executed

theorem turns_eq_nil_iff (r : Rig D) (lines : List ProgramLine) : r.turns lines = [] ↔ lines = [] := by
  cases lines <;> simp [turns]

theorem turns_prefix (r : Rig D) (lines : List ProgramLine) : (r.turns lines).map Turn.line <+: lines := by
  induction lines generalizing r with
  | nil => exact List.nil_prefix
  | cons line lines ih =>
    rw [turns, List.map_cons, List.cons_prefix_cons]
    refine ⟨rfl, ?_⟩
    split
    · exact ih _
    · exact List.nil_prefix

theorem executed_prefix (r : Rig D) (lines : List ProgramLine) :
    (r.executed lines).map Turn.line <+: lines :=
  ((List.takeWhile_prefix Turn.ran).map Turn.line).trans (r.turns_prefix lines)

theorem step_terminate {r after : Rig D} {line : ProgramLine} (h : r.step line = (.ok .terminate, after)) :
    line.command = .stop .final := by
  rcases step_flow r line .terminate (by rw [h]) with hflow | ⟨hfinal, -⟩
  · cases hflow
  · exact hfinal

theorem step_answer {r after : Rig D} {line : ProgramLine} {answer : Option Response}
    (h : r.step line = (.ok (.next answer), after)) : r.answer? line.command = answer := by
  rcases step_flow r line (.next answer) (by rw [h]) with hflow | ⟨-, hflow⟩
  · cases hflow
    rfl
  · cases hflow

/-! ## The record -/

theorem runJob_keeps (r : Rig D) (job : Job) (lines : List ProgramLine) :
    job.Keeps (r.runJob job lines).1 (r.turns lines) (r.executed lines) := by
  -- The induction is on the lines: what a job keeps of the rest comes on top of what it has.
  induction lines generalizing r job with
  | nil => constructor <;> simp [turns, executed, runJob, Job.finish]
  | cons line lines ih =>
    rw [runJob]
    rcases h : r.step line with ⟨e | ⟨answer⟩ | _, after⟩ <;> dsimp only
    · obtain ⟨hturns, hexecuted⟩ := turns_of_error lines h
      rw [hturns, hexecuted]
      constructor <;> simp [Job.finish, Job.beginLine]
    · obtain ⟨hturns, hexecuted⟩ := turns_of_next lines h
      have hrest := ih after ((job.beginLine line.line).finishLine answer)
      rw [hturns, hexecuted]
      constructor
      · exact hrest.program
      · rw [hrest.line, List.getLast?_cons]
        cases (after.turns lines).getLast? <;> rfl
      · rw [hrest.executed, List.length_cons, Nat.add_comm _ 1, ← Nat.add_assoc]
        rfl
      · rw [hrest.responses, List.filterMap_cons, Turn.answer?, step_answer h]
        cases answer <;> simp [Job.finishLine, Job.beginLine]
    · obtain ⟨hturns, hexecuted⟩ := turns_of_terminate lines h
      rw [hturns, hexecuted]
      constructor <;>
        simp [Turn.answer?, answer?, step_terminate h, Job.finish, Job.finishLine, Job.beginLine]

/-- Where a run ended: behind all of its lines, behind a final stop, or at the first line that did not run. -/
def EndsAt (r : Rig D) (lines : List ProgramLine) : Except ExecutionError Outcome → Prop
  | .ok (.completed _) => (r.executed lines).length = lines.length
  | .ok (.terminated number _) =>
    ∃ before, (r.executed lines).map Turn.line = before ++ [⟨number, .stop .final⟩] ∧
      (r.turns lines).getLast?.map Turn.line = some ⟨number, .stop .final⟩
  | .error e => ∃ line, line.line = e.line ∧ lines[(r.executed lines).length]? = some line ∧
      (r.turns lines).getLast?.map Turn.line = some line

theorem EndsAt.next {r after : Rig D} {line : ProgramLine} {answer : Option Response}
    {lines : List ProgramLine} {result : Except ExecutionError Outcome}
    (hstep : r.step line = (.ok (.next answer), after)) (h : after.EndsAt lines result) :
    r.EndsAt (line :: lines) result := by
  obtain ⟨hturns, hexecuted⟩ := turns_of_next lines hstep
  have hlast {last : ProgramLine} (h : (after.turns lines).getLast?.map Turn.line = some last) :
      (r.turns (line :: lines)).getLast?.map Turn.line = some last := by
    rw [hturns, List.getLast?_cons]
    cases hrest : (after.turns lines).getLast? <;> rw [hrest] at h
    · cases h
    · exact h
  rcases result with e | ⟨answers⟩ | ⟨number, answers⟩
  · obtain ⟨last, hline, hget, hend⟩ := h
    refine ⟨last, hline, ?_, hlast hend⟩
    rwa [hexecuted, List.length_cons, List.getElem?_cons_succ]
  · exact (congrArg List.length hexecuted).trans (congrArg Nat.succ h)
  · obtain ⟨before, hran, hend⟩ := h
    refine ⟨line :: before, ?_, hlast hend⟩
    rw [hexecuted, List.map_cons, hran, List.cons_append]

theorem turns_endAt (r : Rig D) (responses : List Response) (lines : List ProgramLine) :
    r.EndsAt lines (Turn.outcome responses (r.turns lines)) := by
  induction lines generalizing r responses with
  | nil => exact rfl
  | cons line lines ih =>
    rcases h : r.step line with ⟨e | ⟨answer⟩ | _, after⟩
    · obtain ⟨hturns, hexecuted⟩ := turns_of_error lines h
      rw [hturns]
      refine ⟨line, (step_error_line r line e (by rw [h])).symm, ?_, by rw [hturns]; rfl⟩
      rw [hexecuted]
      rfl
    · rw [(turns_of_next lines h).1]
      exact (ih after (responses ++ answer.toList)).next h
    · obtain ⟨hturns, hexecuted⟩ := turns_of_terminate lines h
      have hline : line = ⟨line.line, .stop .final⟩ := by rw [← step_terminate h]
      rw [hturns]
      refine ⟨[], ?_, ?_⟩
      · rw [hexecuted]
        exact congrArg (fun line => [line]) hline
      · rw [hturns]
        exact congrArg some hline

theorem runJob_renamed (r : Rig D) (job : Job) (name : String) (lines : List ProgramLine) :
    r.runJob { job with name } lines =
      ({ (r.runJob job lines).1 with name }, (r.runJob job lines).2) := by
  induction lines generalizing r job with
  | nil => rfl
  | cons line lines ih =>
    rw [runJob, runJob]
    rcases r.step line with ⟨e | ⟨answer⟩ | _, after⟩
    · rfl
    · exact ih after ((job.beginLine line.line).finishLine answer)
    · rfl

end Rig

namespace Job

theorem Tells.error_iff {job : Job} {result : Except ExecutionError Outcome} (h : job.Tells result) :
    job.error.isSome = true ↔ job.status = .faulted ∨ job.status = .stopped := by
  rcases result with (_ | _ | _) | _ | _ <;> simp [h.1, h.2, Outcome.status, JobStatus.ofError]

theorem progress_between {job : Job} (hle : job.executed ≤ job.program.size)
    (hsize : job.program.size ≤ Double.maxCount) : 0 ≤ job.progress ∧ job.progress ≤ 1 := by
  have hbounds : (0 : Float) ≤ 1 ∧ (0 : Float) ≤ 0 ∧ (1 : Float) ≤ 1 := by decide +kernel
  unfold progress
  split
  · split
    · exact ⟨hbounds.1, hbounds.2.2⟩
    · exact ⟨hbounds.2.1, hbounds.1⟩
  · rename_i hne
    refine Double.share_between hle (Nat.pos_of_ne_zero hne) ?_
    calc (job.program.size : ℚ) ≤ Double.maxCount := by exact_mod_cast hsize
      _ < Double.overflowBound := Double.maxCount_lt_overflowBound

end Job

namespace Session

theorem runJob_eq (s : Session D) (hs : s.isActive = true) (job : Job) :
    (s.runJob job).2.2 = (s.rig.runJob job.start job.program.lines).1 ∧
      (s.runJob job).1 = .ok (s.runJob job).2.2.status := by
  simp [runJob, hs]

theorem runJob_renamed (s : Session D) (hs : s.isActive = true) (job : Job) (name : String) :
    s.runJob (.new name job.program) =
      ((s.runJob job).1, (s.runJob job).2.1, { (s.runJob job).2.2 with name }) := by
  have hrun := s.rig.runJob_renamed job.start name job.program.lines
  have hfresh : (Job.new name job.program).start = { job.start with name } := rfl
  simp only [runJob, hs, Bool.not_true, Bool.false_eq_true, if_false, hfresh]
  rw [show (Job.new name job.program).program = job.program from rfl, hrun]

/-- **A job's record tells its run.** A job that is run on an active session, whatever it has on record, answers
how it stands. It has executed the leading commands that ran without an error, a final stop included, never more
than there are, so its progress is from 0 to 1. Its line is that of the command that was begun last, and none if
the program is empty; of a job that was stopped or is faulted it is the first line that did not run, which is
the line of its error. There is an error exactly if the job was stopped or is faulted. The answers are those of
the executed queries. A completed job has executed all of its program, and a terminated one all up to a final
stop. And all of it is as of a new job with the same program, run in the place of this one. -/
theorem job_record_tells_run (s : Session D) (hs : s.isActive = true) (job : Job) :
    let lines := job.program.lines
    let begun := s.rig.turns lines
    let ran := s.rig.executed lines
    let after := (s.runJob job).2.2
    (s.runJob job).1 = .ok after.status ∧
    (begun.map Turn.line <+: lines ∧ ran = begun.takeWhile Turn.ran ∧ after.executed = ran.length ∧
      after.executed ≤ job.program.size ∧
      (job.program.size ≤ Double.maxCount → 0 ≤ after.progress ∧ after.progress ≤ 1)) ∧
    (after.currentLine = begun.getLast?.map (fun t => t.line.line) ∧
      (after.currentLine = none ↔ lines = []) ∧
      (after.status = .faulted ∨ after.status = .stopped →
        ∃ failing, lines[after.executed]? = some failing ∧ after.currentLine = some failing.line ∧
          after.error.map ExecutionError.line = some failing.line)) ∧
    (after.error.isSome = true ↔ after.status = .faulted ∨ after.status = .stopped) ∧
    (after.responses = ran.filterMap Turn.answer? ∧
      ∀ t ∈ ran, t.answer?.isSome = t.line.command.isQuery) ∧
    (after.status = .completed → after.executed = job.program.size) ∧
    (after.status = .terminated → ∃ before number, after.currentLine = some number ∧
      ran.map Turn.line = before ++ [⟨number, .stop .final⟩]) ∧
    ∀ name, s.runJob (.new name job.program) = ((s.runJob job).1, (s.runJob job).2.1, { after with name }) := by
  intro lines begun ran after
  obtain ⟨hafter, hanswer⟩ := s.runJob_eq hs job
  have hkeeps : job.start.Keeps after begun ran := by
    rw [show after = _ from hafter]
    exact s.rig.runJob_keeps job.start lines
  have htells : after.Tells (Turn.outcome [] begun) := by
    rw [show after = _ from hafter]
    exact s.rig.runJob_tells job.start lines
  have hend := s.rig.turns_endAt [] lines
  have hexecuted : after.executed = ran.length := hkeeps.executed.trans (Nat.zero_add _)
  have hle : after.executed ≤ after.program.size := by
    have hlength := (s.rig.executed_prefix lines).length_le
    rw [List.length_map] at hlength
    rw [hkeeps.program, hexecuted]
    exact hlength
  have hline : after.currentLine = begun.getLast?.map (fun t => t.line.line) :=
    hkeeps.line.trans (Option.or_none ..)
  have hlast {last : ProgramLine} (h : begun.getLast?.map Turn.line = some last) :
      after.currentLine = some last.line := by
    rw [hline, show (fun t : Turn D => t.line.line) = ProgramLine.line ∘ Turn.line from rfl, ← Option.map_map, h]
    rfl
  refine ⟨hanswer, ⟨s.rig.turns_prefix lines, rfl, hexecuted, hkeeps.program ▸ hle, fun hsize => ?_⟩,
    ⟨hline, ?_, fun hfailed => ?_⟩, htells.error_iff, ⟨?_, fun t _ => Rig.isSome_answer t.before t.line.command⟩,
    fun hcompleted => ?_, fun hterminated => ?_, s.runJob_renamed hs job⟩
  · exact Job.progress_between hle (hkeeps.program ▸ hsize)
  · rw [hline, Option.map_eq_none_iff, List.getLast?_eq_none_iff]
    exact s.rig.turns_eq_nil_iff lines
  · cases hout : Turn.outcome [] begun with
    | error e =>
      rw [hout] at hend htells
      obtain ⟨failing, hfailing, hget, hbegun⟩ := hend
      refine ⟨failing, hexecuted ▸ hget, hlast hbegun, ?_⟩
      rw [htells.2, hfailing]
      rfl
    | ok outcome =>
      rw [hout] at htells
      have herror := htells.error_iff.mpr hfailed
      rw [htells.2.2] at herror
      cases herror
  · exact hkeeps.responses.trans (List.nil_append _)
  · obtain ⟨answers, hout⟩ := htells.completed_iff.mp hcompleted
    rw [hout] at hend
    exact hexecuted.trans hend
  · obtain ⟨number, answers, hout⟩ := htells.terminated_iff.mp hterminated
    rw [hout] at hend
    obtain ⟨before, hran, hbegun⟩ := hend
    exact ⟨before, number, hlast hbegun, hran⟩

/-- A job that was once completed fails at a cut before the machine is homed: nothing on record tells of the
first run. -/
theorem record_of_failed_rerun :
    let s : Session Handle :=
      { settings := {}
        rig := { machine := .powerOn {}, driver := ⟨{ settings := {}, claimed := true }, true⟩ } }
    let program : Program :=
      ⟨[⟨1, .queryPosition⟩, ⟨3, .move .controlled (some 1) none none⟩, ⟨4, .queryVersion⟩]⟩
    let job : Job :=
      { name := "cut", program, status := .completed, currentLine := some 4, executed := 3
        responses := [.position ⟨7, 8⟩, .version Response.firmware] }
    let after := (s.runJob job).2.2
    s.isActive = true ∧ (s.runJob job).1 = .ok .faulted ∧ after.currentLine = some 3 ∧ after.executed = 1 ∧
      after.error.map ExecutionError.line = some 3 ∧ after.responses.map Response.toText = ["X:0.00 Y:0.00"] ∧
      0 ≤ after.progress ∧ after.progress ≤ 1 ∧
      s.runJob (.new "again" program) = ((s.runJob job).1, (s.runJob job).2.1, { after with name := "again" }) := by
  intro s program job after
  have hstatus : after.status = .faulted := by decide +kernel
  have hexecuted : after.executed = 1 := by decide +kernel
  have htexts : after.responses.map Response.toText = ["X:0.00 Y:0.00"] := by decide +kernel
  obtain ⟨hanswer, ⟨-, -, -, -, hprogress⟩, ⟨-, -, hfailing⟩, -, -, -, -, hfresh⟩ :=
    job_record_tells_run s rfl job
  obtain ⟨failing, hget, hline, herror⟩ := hfailing (.inl hstatus)
  rw [hexecuted] at hget
  cases hget
  obtain ⟨hlow, hhigh⟩ := hprogress (by decide)
  exact ⟨rfl, hanswer.trans (congrArg _ hstatus), hline, hexecuted, herror, htexts, hlow, hhigh, hfresh "again"⟩

end Session

end Engraver
