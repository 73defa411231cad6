import Engraver.Proofs.Machine.Queries
import Engraver.Proofs.Session.Calls

/-!
# The lock

The final stop locks a session, and so does shutting it down. A locked session refuses to run anything, before
it so much as looks at it. Only starting again opens the lock, and after a final stop only if it succeeds.
-/

namespace Engraver

variable {D : Type} [Driver D]

/-! ## The final stop -/

/-- The turn of a final stop that no stop request came before. -/
def Turn.IsFinalStop (t : Turn D) : Prop :=
  t.line.command = .stop .final ∧ t.flow = .ok .terminate

theorem Rig.outcome_terminated_iff (r : Rig D) (responses : List Response) (lines : List ProgramLine) :
    (∃ line answers, Turn.outcome responses (r.turns lines) = .ok (.terminated line answers)) ↔
      ∃ t ∈ r.turns lines, t.IsFinalStop := by
  induction lines generalizing r responses with
  | nil => simp [turns, Turn.outcome]
  | cons line lines ih =>
    rcases h : r.step line with ⟨e | ⟨answer⟩ | _, after⟩
    · simp [turns, turn, Turn.outcome, Turn.goesOn, Turn.IsFinalStop, h]
    · have hrest := ih after (responses ++ answer.toList)
      simpa [turns, turn, Turn.outcome, Turn.goesOn, Turn.IsFinalStop, h] using hrest
    · have hfinal : line.command = .stop .final := by
        rcases step_flow r line .terminate (by rw [h]) with hnext | hfinal
        · cases hnext
        · exact hfinal.1
      simp [turns, turn, Turn.outcome, Turn.goesOn, Turn.IsFinalStop, h, hfinal]

namespace Session

variable {s : Session D}

/-- Whether an operation runs a program of its own. -/
def Op.runsProgram : Op → Bool
  | run _ | runSource _ | runFile _ | runJob _ => true
  | _ => false

theorem runsProgram_of_finalStop {op : Op} {t : Turn D} (ht : t ∈ s.turns op) (hfinal : t.IsFinalStop) :
    op.runsProgram = true := by
  obtain ⟨lines, hop, -, ht⟩ := mem_turns ht
  have hline := (Rig.mem_turns ht).2
  have hcommand := hfinal.1
  cases op <;> first
    | rfl
    | cases hop
  all_goals
    rw [List.mem_singleton.mp hline] at hcommand
    cases hcommand

theorem run_terminates (s : Session D) (program : Program) (hs : s.isActive = true)
    (h : ∃ t ∈ s.rig.turns program.lines, t.IsFinalStop) : (s.run program).2.terminated = true := by
  obtain ⟨line, answers, hout⟩ := (s.rig.outcome_terminated_iff [] program.lines).mpr h
  have hrun := congrArg Prod.fst (s.rig.run_eq program)
  rw [hout] at hrun
  unfold run
  rcases hresult : s.rig.run program with ⟨result, rig⟩
  rw [hresult] at hrun
  cases hrun
  simp [hs, Outcome.isTerminated]

theorem runSource_terminates (s : Session D) (source : String) {lines : List ProgramLine}
    (hsource : Task.ofSource source = .lines lines) (hs : s.isActive = true)
    (h : ∃ t ∈ s.rig.turns lines, t.IsFinalStop) : (s.runSource source).2.terminated = true := by
  unfold Task.ofSource at hsource
  unfold runSource
  cases hp : Program.parse source with
  | error e => simp [hp] at hsource
  | ok program =>
    rw [hp] at hsource
    cases hsource
    simpa [hs] using run_terminates s program hs h

theorem apply_terminates {op : Op} (h : ∃ t ∈ s.turns op, t.IsFinalStop) : (s.apply op).terminated = true := by
  obtain ⟨t, ht, hfinal⟩ := h
  have hruns := runsProgram_of_finalStop ht hfinal
  obtain ⟨lines, hop, hs, hturn⟩ := mem_turns ht
  cases op with
  | run program =>
    cases hop
    exact run_terminates s program hs ⟨t, hturn, hfinal⟩
  | runSource source => exact runSource_terminates s source hop hs ⟨t, hturn, hfinal⟩
  | runFile file =>
    cases file with
    | error e => cases hop
    | ok source => exact runSource_terminates s source hop hs ⟨t, hturn, hfinal⟩
  | runJob job =>
    cases hop
    rw [apply, (runJob_active s hs job).2.1]
    exact run_terminates s job.program hs ⟨t, hturn, hfinal⟩
  | _ => cases hruns

/-- An active session is terminated by final stops and nothing else. -/
theorem apply_terminated_iff (hs : s.isActive = true) (op : Op) :
    (s.apply op).terminated = true ↔ ∃ t ∈ s.turns op, t.IsFinalStop := by
  refine ⟨fun h => ?_, apply_terminates⟩
  obtain ⟨lines, line, answers, hop, hout⟩ := apply_terminated s op hs h
  rw [turns_lines hop hs]
  exact (s.rig.outcome_terminated_iff [] lines).mp ⟨line, answers, hout⟩

/-! ## Refusals -/

/-- The session refuses whatever would run anything, and neither it nor the job it was given changes. -/
structure Refuses (s : Session D) : Prop where
  run : ∀ program, s.run program = (.error .terminated, s)
  runSource : ∀ source, s.runSource source = (.error .terminated, s)
  runJob : ∀ job, s.runJob job = (.error .terminated, s, job)
  home : s.home = (.error .terminated, s)
  moveTo : ∀ x y feedrate, s.moveTo x y feedrate = (.error .terminated, s)

theorem refuses_of_idle (h : s.isActive = false) : s.Refuses := by
  constructor <;> intros <;> simp [Session.run, Session.runSource, Session.runJob, Session.home,
    Session.moveTo, execute, h]

omit [Driver D] in
theorem idle_of_terminated (h : s.terminated = true) : s.isActive = false := by
  simp [isActive, h]

omit [Driver D] in
theorem idle_of_released (h : s.released = true) : s.isActive = false := by
  simp [isActive, h]

/-! ## What keeps the lock -/

/-- A call that starts the session again and succeeds. -/
def Call.Restarts (call : Call D) : Prop :=
  ∃ picture, call.op = .restart picture ∧ (call.session.restart picture).1 = .ok ()

theorem powerDown_terminated (s : Session D) : s.powerDown.terminated = s.terminated := by
  unfold powerDown
  split <;> rfl

theorem restart_cases (s : Session D) (picture : Except RasterFault Mask) :
    (s.restart picture).1 = .ok () ∧ (s.restart picture).2.isActive = true ∨
      (s.restart picture).1 ≠ .ok () ∧ (s.restart picture).2.terminated = s.terminated := by
  have hdown := powerDown_terminated s
  rcases restart_ends s picture with ⟨e, -, hend⟩ | ⟨-, ⟨fault, -, hend⟩ | ⟨machine, -, hend⟩⟩ <;> rw [hend]
  · exact .inr ⟨by simp, hdown⟩
  · exact .inr ⟨by simp, hdown⟩
  · exact .inl ⟨rfl, rfl⟩

theorem apply_stays_terminated (h : s.terminated = true) {op : Op} (hop : ¬ Call.Restarts ⟨s, op⟩) :
    (s.apply op).terminated = true := by
  have hidle := idle_of_terminated h
  have hdoes := apply_does s op
  cases ht : op.task with
  | restart picture =>
    cases eq_restart ht
    rcases restart_cases s picture with ⟨hok, -⟩ | ⟨-, hsame⟩
    · exact absurd ⟨picture, rfl, hok⟩ hop
    · exact hsame.trans h
  | shutDown =>
    rw [ht] at hdoes
    rw [show s.apply op = s.powerDown from hdoes, powerDown_terminated, h]
  | adjust =>
    rw [ht] at hdoes
    obtain ⟨machine, stop, -, hsame⟩ := hdoes
    rw [hsame]
    exact h
  | _ =>
    simp only [ht, Does, hidle, Bool.false_eq_true, if_false] at hdoes
    rwa [hdoes]

theorem after_stays_terminated (h : s.terminated = true) (ops : List Op)
    (hops : ∀ call ∈ s.calls ops, ¬ call.Restarts) : (s.after ops).terminated = true :=
  after_keeps (fun s => s.terminated = true) (¬ ·.Restarts) (fun _ hop hs => apply_stays_terminated hs hop) h hops

theorem apply_stays_released (h : s.released = true) {op : Op} (hop : ∀ picture, op ≠ .restart picture) :
    (s.apply op).released = true := by
  have hdoes := apply_does s op
  cases ht : op.task with
  | restart picture => exact absurd (eq_restart ht) (hop picture)
  | shutDown =>
    rw [ht] at hdoes
    rw [show s.apply op = s.powerDown from hdoes]
    exact (powerDown_cases s).1
  | _ => exact (hdoes.worked (by rw [ht]; rfl)).2.trans h

theorem after_stays_released (h : s.released = true) (ops : List Op)
    (hops : ∀ picture, .restart picture ∉ ops) : (s.after ops).released = true := by
  refine after_keeps (fun s => s.released = true) (fun call => ∀ picture, call.op ≠ .restart picture)
    (fun _ hop hs => apply_stays_released hs hop) h ?_
  intro call hcall picture hop
  exact hops picture (hop ▸ mem_calls hcall)

/-- **The final stop locks the session.** After an operation that reaches a final stop, whatever else is done
to the session short of starting it again with success, it stays terminated, and it refuses programs, sources,
jobs, homings and moves without any change to it or to the job. After it is shut down it refuses them too,
until it is started again. An active session is terminated only by running a program, a source or a job in
which a final stop has its turn; and a session that was started again is active. -/
theorem final_stop_locks_session (s : Session D) (op : Op) (ops : List Op) :
    ((∃ t ∈ s.turns op, t.IsFinalStop) → (∀ call ∈ (s.apply op).calls ops, ¬ call.Restarts) →
      ((s.apply op).after ops).terminated = true ∧ ((s.apply op).after ops).Refuses) ∧
    ((∀ picture, .restart picture ∉ ops) → ((s.apply .shutDown).after ops).Refuses) ∧
    (s.isActive = true → ((s.apply op).terminated = true ↔
      op.runsProgram = true ∧ ∃ t ∈ s.turns op, t.IsFinalStop)) ∧
    ∀ picture, (s.restart picture).1 = .ok () → (s.restart picture).2.isActive = true := by
  refine ⟨?_, ?_, ?_, ?_⟩
  · intro hfinal hops
    have hlocked := after_stays_terminated (apply_terminates hfinal) ops hops
    exact ⟨hlocked, refuses_of_idle (idle_of_terminated hlocked)⟩
  · intro hops
    exact refuses_of_idle (idle_of_released (after_stays_released (powerDown_cases s).1 ops hops))
  · intro hs
    rw [apply_terminated_iff hs]
    constructor
    · rintro ⟨t, ht, hfinal⟩
      exact ⟨runsProgram_of_finalStop ht hfinal, t, ht, hfinal⟩
    · exact And.right
  · intro picture hok
    rcases restart_cases s picture with ⟨-, hactive⟩ | ⟨hfailed, -⟩
    · exact hactive
    · exact absurd hok hfailed

/-- A session on a new board whose settings name a picture. -/
def withPicture : Session Handle where
  settings := { raster := { path := some "art.png" } }
  rig := Rig.onNewBoard

/-- A final stop behind a move, then the session is shut down, and the picture is bad when it is started
again. -/
theorem lock_survives_failed_restart :
    let op : Op := .runSource "G28\nM0\nG1 X1"
    let ops : List Op := [.shutDown, .restart (.error .empty), .requestStop]
    withPicture.isActive = true ∧ (withPicture.apply op).terminated = true ∧ op.runsProgram = true ∧
      ((withPicture.apply op).after ops).released = false ∧
      ((withPicture.apply op).after ops).terminated = true ∧ ((withPicture.apply op).after ops).Refuses ∧
      ((withPicture.apply .shutDown).after [.requestStop]).Refuses ∧
      ((withPicture.apply op).restart (.ok (.uniform 0))).2.isActive = true := by
  intro op ops
  have hactive : withPicture.isActive = true := rfl
  have hterminated : (withPicture.apply op).terminated = true := by decide +kernel
  obtain ⟨hlock, -, hconverse, -⟩ := final_stop_locks_session withPicture op ops
  obtain ⟨hruns, hfinal⟩ := (hconverse hactive).mp hterminated
  have hfailed : (((withPicture.apply op).apply .shutDown).restart (.error .empty)).1.isOk = false := by
    decide +kernel
  have hops : ∀ call ∈ (withPicture.apply op).calls ops, ¬ call.Restarts := by
    rintro call hcall ⟨picture, hop, hok⟩
    simp only [ops, calls, List.mem_cons, List.not_mem_nil, or_false] at hcall
    rcases hcall with rfl | rfl | rfl
    · cases hop
    · cases hop
      rw [hok] at hfailed
      cases hfailed
    · cases hop
  have hreopened : ((withPicture.apply op).restart (.ok (.uniform 0))).1.isOk = true := by decide +kernel
  refine ⟨hactive, hterminated, hruns, by decide +kernel, (hlock hfinal hops).1, (hlock hfinal hops).2,
    (final_stop_locks_session withPicture op [.requestStop]).2.1 (by simp),
    (final_stop_locks_session (withPicture.apply op) op ops).2.2.2 _ ?_⟩
  cases h : ((withPicture.apply op).restart (.ok (.uniform 0))).1 with
  | error e => simp [h, Except.isOk, Except.toBool] at hreopened
  | ok _ => rfl

end Session

end Engraver
