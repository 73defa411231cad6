import Engraver.Proofs.Machine.Outputs

/-!
# Queries

A query answers from the rig that it finds and leaves it alone, so a run without its queries does the same.
Only the looks for stop requests are fewer, and where no stop is asked for a look changes nothing either.
-/

namespace Engraver

/-- The program without its queries; the other lines keep their numbers. -/
def Program.withoutQueries (p : Program) : Program :=
  ⟨p.lines.filter fun line => !line.command.isQuery⟩

def Outcome.unanswered : Outcome → Outcome
  | completed _ => completed []
  | terminated line _ => terminated line []

namespace StopLine

/-- No stop is asked for, neither now nor later. -/
def IsIdle (s : StopLine) : Prop :=
  s.pending = false ∧ ∀ request ∈ s.coming, request = false

theorem IsIdle.take {s : StopLine} (h : s.IsIdle) : s.take.1 = false ∧ s.take.2.IsIdle := by
  obtain ⟨pending, coming⟩ := s
  obtain ⟨hpending, hcoming⟩ := h
  cases coming with
  | nil => exact ⟨by simp_all [StopLine.take], rfl, by simp [StopLine.take]⟩
  | cons request coming =>
    refine ⟨?_, rfl, ?_⟩
    · simp_all [StopLine.take]
    · intro request hrequest
      exact hcoming request (List.mem_cons_of_mem _ hrequest)

end StopLine

namespace Rig

/-! ## Commands do not see stop requests -/

section Stop

variable {D : Type}

def withStop (r : Rig D) (stop : StopLine) : Rig D :=
  { r with stop }

variable [Driver D]

theorem withStop_view (stop : StopLine) : View id (fun r : Rig D => r.withStop stop) where
  likeness := Driver.Mirror.id.toLikeness
  change _ _ _ := rfl
  notify _ _ := rfl
  fault _ _ := rfl
  settle r target summary status := by
    unfold settle
    split <;> rfl

theorem shutDown_withStop (r : Rig D) (stop : StopLine) :
    (r.withStop stop).shutDown = r.shutDown.withStop stop :=
  (withStop_view stop).shutDown r

theorem perform_withStop (r : Rig D) (stop : StopLine) (line : Nat) (command : Command) :
    (r.withStop stop).perform line command =
      ((r.perform line command).1, (r.perform line command).2.withStop stop) :=
  (withStop_view stop).perform r line command

@[simp] theorem shutDown_stop (r : Rig D) : r.shutDown.stop = r.stop :=
  congrArg (fun after => after.stop) (shutDown_withStop r r.stop)

theorem perform_stop (r : Rig D) (line : Nat) (command : Command) :
    (r.perform line command).2.stop = r.stop :=
  congrArg (fun answer => answer.2.stop) (perform_withStop r r.stop line command)

end Stop

/-! ## Answers -/

section Answers

variable {D : Type} [Driver D]

/-- What a rig answers to a query; nothing to any other command. -/
def answer? (r : Rig D) : Command → Option Response
  | .queryPosition => some (.position r.machine.position)
  | .queryVersion => some (.version Response.firmware)
  | .queryEndstops => some (.endstops (Driver.readSwitches r.driver).1)
  | _ => none

theorem isSome_answer (r : Rig D) (command : Command) : (r.answer? command).isSome = command.isQuery := by
  cases command <;> rfl

theorem concluded_flow (r : Rig D) (line : Nat) (result : Except MotionError Unit) (flow : Flow)
    (h : (r.concluded line result).1 = .ok flow) : flow = .next none := by
  cases result with
  | error e => cases h
  | ok done =>
    cases h
    rfl

theorem perform_flow (r : Rig D) (line : Nat) (command : Command) (flow : Flow)
    (h : (r.perform line command).1 = .ok flow) :
    flow = .next (r.answer? command) ∨ command = .stop .final ∧ flow = .terminate := by
  cases command with
  | move kind x y feedrate =>
    rw [perform_move] at h
    exact .inl (concluded_flow _ line _ flow h)
  | home =>
    rw [perform_home] at h
    exact .inl (concluded_flow _ line _ flow h)
  | stop kind =>
    cases kind <;> cases h
    · exact .inr ⟨rfl, rfl⟩
    · exact .inl rfl
  | _ =>
    cases h
    exact .inl rfl

theorem step_flow (r : Rig D) (line : ProgramLine) (flow : Flow) (h : (r.step line).1 = .ok flow) :
    flow = .next (r.answer? line.command) ∨ line.command = .stop .final ∧ flow = .terminate := by
  cases hs : r.stop.take.1 with
  | true =>
    rw [step_stopped r line hs] at h
    cases h
  | false =>
    rw [step_unstopped r line hs] at h
    exact perform_flow r.looked line.line line.command flow h

end Answers

end Rig

/-- What a line is answered; nothing if it is no query. -/
def Turn.answer? {D : Type} [Driver D] (t : Turn D) : Option Response :=
  t.before.answer? t.line.command

namespace Rig

section Runs

variable {D : Type} [Driver D]

theorem outcome_responses (r : Rig D) (answers : List Response) (lines : List ProgramLine)
    (outcome : Outcome) (h : Turn.outcome answers (r.turns lines) = .ok outcome) :
    outcome.responses = answers ++ (r.turns lines).filterMap Turn.answer? := by
  -- The induction is on the lines: every query whose turn came has its answer behind those so far.
  induction lines generalizing r answers with
  | nil =>
    cases h
    simp [turns, Outcome.responses]
  | cons line lines ih =>
    rcases hstep : r.step line with ⟨e | flow, after⟩
    · simp [turns, turn, Turn.outcome, hstep] at h
    · rcases step_flow r line flow (by rw [hstep]) with rfl | ⟨hfinal, rfl⟩
      · simp only [turns, turn, Turn.outcome, Turn.goesOn, hstep, if_true] at h ⊢
        rw [ih after _ h, List.filterMap_cons, List.append_assoc, Turn.answer?]
        cases r.answer? line.command <;> rfl
      · simp only [turns, turn, Turn.outcome, Turn.goesOn, hstep] at h ⊢
        cases h
        simp [Outcome.responses, Turn.answer?, answer?, hfinal]

theorem turns_before (r : Rig D) (answers : List Response) (lines : List ProgramLine) (k : Nat) (t : Turn D)
    (h : (r.turns lines)[k]? = some t) :
    lines[k]? = some t.line ∧ t.before = (r.runLines answers (lines.take k)).2 := by
  induction lines generalizing r answers k with
  | nil => simp [turns] at h
  | cons line lines ih =>
    rw [turns] at h
    cases k with
    | zero =>
      cases h
      exact ⟨rfl, rfl⟩
    | succ k =>
      rw [List.getElem?_cons_succ] at h
      rw [List.getElem?_cons_succ, List.take_succ_cons, runLines]
      rcases hstep : r.step line with ⟨e | ⟨answer⟩ | _, after⟩
      · simp [turn, Turn.goesOn, hstep] at h
      · simp only [turn, Turn.goesOn, hstep, if_true] at h
        exact ih after _ k h
      · simp [turn, Turn.goesOn, hstep] at h

end Runs

/-! ## The board does not notice a query -/

theorem perform_query (r : Rig Handle) (line : Nat) (command : Command) (h : command.isQuery = true) :
    r.perform line command = (.ok (.next (r.answer? command)), r) := by
  cases command <;> first | rfl | cases h

theorem runLines_withoutQueries (r : Rig Handle) (hr : r.stop.IsIdle) (stop : StopLine) (hstop : stop.IsIdle)
    (answers : List Response) (lines : List ProgramLine) :
    ∃ stop', stop'.IsIdle ∧
      (r.withStop stop).runLines [] (lines.filter fun line => !line.command.isQuery) =
        ((r.runLines answers lines).1.map Outcome.unanswered,
          (r.runLines answers lines).2.withStop stop') := by
  -- The induction is on the lines. A query changes at most the stop line, so the run without it
  -- goes on from the same rig, and any other command does the same in both runs.
  induction lines generalizing r stop answers with
  | nil => exact ⟨stop, hstop, rfl⟩
  | cons line lines ih =>
    obtain ⟨hlook, hr'⟩ := hr.take
    obtain ⟨hlook', hstop'⟩ := hstop.take
    rw [List.filter_cons, runLines, step_unstopped r line hlook]
    cases hquery : line.command.isQuery with
    | true =>
      rw [perform_query r.looked line.line line.command hquery]
      exact ih r.looked hr' stop hstop _
    | false =>
      have hstep : (r.withStop stop).step line =
          ((r.looked.perform line.line line.command).1,
            (r.looked.perform line.line line.command).2.withStop stop.take.2) := by
        rw [step_unstopped (r.withStop stop) line hlook']
        exact perform_withStop r.looked stop.take.2 line.line line.command
      have hidle := perform_stop r.looked line.line line.command
      have hflow := perform_flow r.looked line.line line.command
      have hanswer : r.looked.answer? line.command = none := by
        rw [← Option.isNone_iff_eq_none, ← Option.not_isSome, isSome_answer, hquery]
        rfl
      rw [hanswer] at hflow
      simp only [Bool.not_false, if_true, runLines, hstep]
      rcases hperform : r.looked.perform line.line line.command with ⟨e | flow, after⟩ <;>
        rw [hperform] at hflow hidle
      · exact ⟨_, hstop', rfl⟩
      · rcases hflow flow rfl with rfl | ⟨-, rfl⟩
        · exact ih after (hidle ▸ hr') _ hstop' _
        · exact ⟨_, hstop', rfl⟩

/-- **Queries are inert.** Where no stop is asked for, a run with its queries and the run without them end
alike, at the same line or with the same error, and leave the same rig: state, board with its records,
counters and log. A run that ends without an error has answered every query whose turn came, once and in
order, and nothing else; each turn finds the rig that the lines before it leave, so the position that is
answered is the one that they led to. -/
theorem queries_are_inert (r : Rig Handle) (p : Program) (hr : r.stop.IsIdle) :
    (∃ stop, stop.IsIdle ∧ r.run p.withoutQueries =
      ((r.run p).1.map Outcome.unanswered, (r.run p).2.withStop stop)) ∧
    (∀ outcome, (r.run p).1 = .ok outcome →
      outcome.responses = (r.turns p.lines).filterMap Turn.answer?) ∧
    ∀ (k : Nat) (t : Turn Handle), (r.turns p.lines)[k]? = some t →
      p.lines[k]? = some t.line ∧ t.before = (r.run ⟨p.lines.take k⟩).2 ∧
      t.answer?.isSome = t.line.command.isQuery ∧
      (t.line.command = .queryPosition →
        t.answer? = some (.position (r.run ⟨p.lines.take k⟩).2.machine.position)) := by
  refine ⟨runLines_withoutQueries r hr r.stop hr [] p.lines, ?_, ?_⟩
  · intro outcome h
    rw [run_eq] at h
    exact outcome_responses r [] p.lines outcome h
  · intro k t ht
    obtain ⟨hline, hbefore⟩ := turns_before r [] p.lines k t ht
    refine ⟨hline, hbefore, isSome_answer t.before t.line.command, ?_⟩
    intro hquery
    rw [Turn.answer?, hquery, hbefore]
    rfl

/-- Two positions asked for on either side of a set position, and a query that the final stop keeps from
its turn. -/
theorem answers_before_final_stop :
    let p : Program :=
      ⟨[⟨1, .queryPosition⟩, ⟨2, .setPosition 7 8⟩, ⟨3, .queryPosition⟩, ⟨4, .stop .final⟩, ⟨5, .queryVersion⟩]⟩
    let answers : List Response := [.position ⟨0, 0⟩, .position ⟨7, 8⟩]
    (onNewBoard.run p).1 = .ok (.terminated 4 answers) ∧
      (onNewBoard.turns p.lines).filterMap Turn.answer? = answers ∧
      (onNewBoard.run p.withoutQueries).1 = .ok (.terminated 4 []) := by
  intro p answers
  have hidle : onNewBoard.stop.IsIdle := ⟨rfl, by simp [onNewBoard]⟩
  have hend : (onNewBoard.run p).1 = .ok (.terminated 4 answers) := rfl
  obtain ⟨⟨stop, -, hrun⟩, hanswers, -⟩ := queries_are_inert onNewBoard p hidle
  refine ⟨hend, (hanswers _ hend).symm, ?_⟩
  rw [hrun, hend]
  rfl

end Rig

end Engraver
