import Engraver.Proofs.Session.Jobs

/-!
# Calls and their turns

A call is an operation on a session as it found it. What a call does to the rig is the work of its turns,
and whether it fails, and at which line, is told by the last of them.
-/

namespace Engraver

namespace Turn

variable {D : Type}

def error? (t : Turn D) : Option ExecutionError :=
  match t.flow with
  | .error e => some e
  | .ok _ => none

theorem goesOn_of_error {t : Turn D} {e : ExecutionError} (h : t.error? = some e) : t.goesOn = false := by
  unfold error? at h
  unfold goesOn
  split at h
  · rename_i he
    rw [he]
  · cases h

end Turn

namespace ExecutionError

def stopLine? : ExecutionError → Option Nat
  | stopRequested line => some line
  | _ => none

end ExecutionError

variable {D : Type} [Driver D]

namespace Rig

theorem outcome_error_iff (r : Rig D) (responses : List Response) (lines : List ProgramLine)
    (e : ExecutionError) :
    Turn.outcome responses (r.turns lines) = .error e ↔
      (r.turns lines).getLast?.bind Turn.error? = some e := by
  induction lines generalizing r responses with
  | nil => simp [turns, Turn.outcome]
  | cons line lines ih =>
    rcases h : r.step line with ⟨_ | _ | _, after⟩
    · simp [turns, turn, Turn.outcome, Turn.goesOn, Turn.error?, h]
    · have hrest := ih after (responses ++ (‹Option Response›).toList)
      cases lines with
      | nil => simp [turns, turn, Turn.outcome, Turn.goesOn, Turn.error?, h]
      | cons next lines =>
        simp only [turns, turn, Turn.outcome, Turn.goesOn, h, if_true, List.getLast?_cons_cons] at hrest ⊢
        exact hrest
    · simp [turns, turn, Turn.outcome, Turn.goesOn, Turn.error?, h]

end Rig

namespace Session

/-! ## One call -/

/-- The error of a command, as an answer tells it. -/
def executionError? {α : Type} : Except SessionError α → Option ExecutionError
  | .error (.execution e) => some e
  | _ => none

/-- The turns that an operation gives to commands. -/
def turns (s : Session D) (op : Op) : List (Turn D) :=
  match op.task with
  | .lines lines => if s.isActive then s.rig.turns lines else []
  | _ => []

/-- The error of a command by which an operation fails, as its answer tells it, or the record of its job. -/
def failure? (s : Session D) : Op → Option ExecutionError
  | .run program => executionError? (s.run program).1
  | .runSource source => executionError? (s.runSource source).1
  | .runFile file => executionError? (s.runFile file).1
  | .runJob job =>
    match s.runJob job with
    | (.ok _, _, job) => job.error
    | (.error _, _, _) => none
  | .home => executionError? s.home.1
  | .moveTo x y feedrate => executionError? (s.moveTo x y feedrate).1
  | _ => none

theorem turns_lines {s : Session D} {op : Op} {lines : List ProgramLine} (hop : op.task = .lines lines)
    (hs : s.isActive = true) : s.turns op = s.rig.turns lines := by
  simp [turns, hop, hs]

theorem turns_idle {s : Session D} (hs : s.isActive = false) (op : Op) : s.turns op = [] := by
  unfold turns
  split
  · simp [hs]
  · rfl

theorem mem_turns {s : Session D} {op : Op} {t : Turn D} (h : t ∈ s.turns op) :
    ∃ lines, op.task = .lines lines ∧ s.isActive = true ∧ t ∈ s.rig.turns lines := by
  unfold turns at h
  split at h
  · split at h
    · exact ⟨_, by assumption, by assumption, h⟩
    · cases h
  · cases h

theorem apply_rig (s : Session D) {op : Op} {lines : List ProgramLine} (hop : op.task = .lines lines) :
    (s.apply op).rig = s.rig.left (s.turns op) := by
  have h := apply_does s op
  simp only [hop, Does, turns] at h ⊢
  split at h
  · obtain ⟨terminated, h⟩ := h
    rw [h]
    simp [leave, *]
  · rw [h]
    simp [Rig.left, *]

theorem run_failure (s : Session D) (program : Program) (e : ExecutionError) :
    executionError? (s.run program).1 = some e ↔
      s.isActive = true ∧ (s.rig.turns program.lines).getLast?.bind Turn.error? = some e := by
  rw [← Rig.outcome_error_iff s.rig [] program.lines e, run]
  have hrun := congrArg Prod.fst (s.rig.run_eq program)
  cases s.isActive with
  | false => simp [executionError?]
  | true =>
    rcases h : s.rig.run program with ⟨_ | _, after⟩ <;> rw [h] at hrun <;> dsimp only at hrun <;>
      simp [executionError?, ← hrun]

theorem runSource_failure (s : Session D) (source : String) (e : ExecutionError) :
    executionError? (s.runSource source).1 = some e ↔
      ∃ lines, Task.ofSource source = .lines lines ∧ s.isActive = true ∧
        (s.rig.turns lines).getLast?.bind Turn.error? = some e := by
  unfold Task.ofSource runSource
  cases hs : s.isActive <;> cases Program.parse source
  · simp [executionError?]
  · simp [executionError?]
  · simp [executionError?]
  · simpa [hs] using run_failure s _ e

theorem runJob_failure (s : Session D) (job : Job) (e : ExecutionError) :
    s.failure? (.runJob job) = some e ↔
      s.isActive = true ∧ (s.rig.turns job.program.lines).getLast?.bind Turn.error? = some e := by
  rw [← Rig.outcome_error_iff s.rig [] job.program.lines e, failure?, runJob]
  have htells := (s.rig.runJob_agrees job).1
  rw [Rig.run_eq] at htells
  cases s.isActive with
  | false => simp
  | true =>
    cases h : Turn.outcome [] (s.rig.turns job.program.lines) <;> simp only [h, Job.Tells] at htells <;>
      simp [htells]

theorem execute_failure (s : Session D) (command : Command) (e : ExecutionError) :
    executionError? (s.execute command).1 = some e ↔
      s.isActive = true ∧ (s.rig.turns [⟨0, command⟩]).getLast?.bind Turn.error? = some e := by
  unfold execute
  cases s.isActive with
  | false => simp [executionError?]
  | true =>
    rcases h : s.rig.step ⟨0, command⟩ with ⟨_ | _, after⟩ <;>
      simp [executionError?, Rig.turns, Rig.turn, Turn.error?, h]

theorem failure_eq (s : Session D) (op : Op) :
    s.failure? op = (s.turns op).getLast?.bind Turn.error? := by
  have hsource (source : String) (task : Op) (htask : task.task = .ofSource source) :
      executionError? (s.runSource source).1 = (s.turns task).getLast?.bind Turn.error? := by
    ext e
    rw [runSource_failure, turns, htask]
    cases Task.ofSource source <;> cases s.isActive <;> simp
  have hlines (lines : List ProgramLine) (task : Op) (htask : task.task = .lines lines)
      (failure : Option ExecutionError)
      (h : ∀ e, failure = some e ↔
        s.isActive = true ∧ (s.rig.turns lines).getLast?.bind Turn.error? = some e) :
      failure = (s.turns task).getLast?.bind Turn.error? := by
    ext e
    rw [h, turns, htask]
    cases s.isActive <;> simp
  cases op with
  | run program => exact hlines program.lines _ rfl _ (run_failure s program)
  | runSource source => exact hsource source _ rfl
  | runFile file =>
    cases file with
    | error e => rfl
    | ok source => exact hsource source _ rfl
  | runJob job => exact hlines job.program.lines _ rfl _ (runJob_failure s job)
  | home => exact hlines [⟨0, .home⟩] _ rfl _ (execute_failure s .home)
  | moveTo x y feedrate =>
    exact hlines [⟨0, .move .rapid (some x) (some y) feedrate⟩] _ rfl _ (execute_failure s _)
  | _ => rfl

/-! ## One call after the other -/

/-- An operation and the session that it found. -/
structure Call (D : Type) where
  session : Session D
  op : Op

def after (s : Session D) (ops : List Op) : Session D :=
  ops.foldl apply s

def calls (s : Session D) : List Op → List (Call D)
  | [] => []
  | op :: ops => ⟨s, op⟩ :: (s.apply op).calls ops

def allTurns (s : Session D) (ops : List Op) : List (Turn D) :=
  (s.calls ops).flatMap fun call => call.session.turns call.op

theorem mem_calls {s : Session D} {ops : List Op} {call : Call D} (h : call ∈ s.calls ops) : call.op ∈ ops := by
  induction ops generalizing s with
  | nil => cases h
  | cons op ops ih =>
    rcases List.mem_cons.mp h with rfl | h
    · exact List.mem_cons_self
    · exact List.mem_cons_of_mem op (ih h)

section Keeps

variable (P : Session D → Prop) (Q : Call D → Prop)
  (hstep : ∀ call : Call D, Q call → P call.session → P (call.session.apply call.op))
  {s : Session D} {ops : List Op}
include hstep

/-- What every such call keeps, every call finds. -/
theorem calls_keep (hs : P s) (hcalls : ∀ call ∈ s.calls ops, Q call) {call : Call D}
    (h : call ∈ s.calls ops) : P call.session := by
  induction ops generalizing s with
  | nil => cases h
  | cons op ops ih =>
    rcases List.mem_cons.mp h with rfl | h
    · exact hs
    · have hnext := hstep ⟨s, op⟩ (hcalls _ List.mem_cons_self) hs
      exact ih hnext (fun call hcall => hcalls call (List.mem_cons_of_mem _ hcall)) h

theorem after_keeps (hs : P s) (hcalls : ∀ call ∈ s.calls ops, Q call) : P (s.after ops) := by
  induction ops generalizing s with
  | nil => exact hs
  | cons op ops ih =>
    have hnext := hstep ⟨s, op⟩ (hcalls _ List.mem_cons_self) hs
    exact ih hnext fun call hcall => hcalls call (List.mem_cons_of_mem _ hcall)

end Keeps

end Session

end Engraver
