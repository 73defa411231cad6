import Engraver.Machine.Dispatch
import Engraver.Proofs.Hardware.Requests

/-!
# Runs, turn by turn

Every line that a run comes to has one turn. The turns of a run hold all that can be seen of it: its
result and the rig that it leaves are read off them.
-/

namespace Engraver

/-- One line's turn in a run: the rig it found, what came of it, and the rig it left. -/
structure Turn (D : Type) where
  line : ProgramLine
  before : Rig D
  flow : Except ExecutionError Flow
  after : Rig D

namespace Turn

variable {D : Type}

/-- Whether the next line has its turn. -/
def goesOn (t : Turn D) : Bool :=
  match t.flow with
  | .ok (.next _) => true
  | _ => false

/-- How a run ends that has these turns, after the answers so far. -/
def outcome (responses : List Response) : List (Turn D) → Except ExecutionError Outcome
  | [] => .ok (.completed responses)
  | t :: ts =>
    match t.flow with
    | .error e => .error e
    | .ok .terminate => .ok (.terminated t.line.line responses)
    | .ok (.next answer) => outcome (responses ++ answer.toList) ts

def view {E : Type} (f : Rig D → Rig E) (t : Turn D) : Turn E :=
  ⟨t.line, f t.before, t.flow, f t.after⟩

end Turn

/-- Whether a run ended by an error or by the final stop. -/
def endsEarly : Except ExecutionError Outcome → Bool
  | .error _ => true
  | .ok outcome => outcome.isTerminated

namespace Rig

variable {D : Type}

/-- The rig that these turns of `r` leave. -/
def left (r : Rig D) (turns : List (Turn D)) : Rig D :=
  (turns.getLast?.map Turn.after).getD r

theorem left_cons (r : Rig D) (t : Turn D) (ts : List (Turn D)) : r.left (t :: ts) = t.after.left ts := by
  rw [left, left, List.getLast?_cons]
  cases ts.getLast? <;> rfl

/-- The rig after a look for stop requests. -/
def looked (r : Rig D) : Rig D :=
  { r with stop := r.stop.take.2 }

variable [Driver D]

theorem step_stopped (r : Rig D) (line : ProgramLine) (h : r.stop.take.1 = true) :
    r.step line =
      (.error (.stopRequested line.line), (r.looked.notify (.stopRequested line.line)).shutDown) := by
  simp only [step, h, if_true]
  rfl

theorem step_unstopped (r : Rig D) (line : ProgramLine) (h : r.stop.take.1 = false) :
    r.step line = r.looked.perform line.line line.command := by
  simp only [step, h, Bool.false_eq_true, if_false]
  rfl

def turn (r : Rig D) (line : ProgramLine) : Turn D :=
  ⟨line, r, (r.step line).1, (r.step line).2⟩

/-- The turns of the lines, up to the first after which the run does not go on. -/
def turns (r : Rig D) : List ProgramLine → List (Turn D)
  | [] => []
  | line :: lines => r.turn line :: if (r.turn line).goesOn then (r.turn line).after.turns lines else []

/-- A run is read off its turns. -/
theorem runLines_eq (r : Rig D) (responses : List Response) (lines : List ProgramLine) :
    r.runLines responses lines = (Turn.outcome responses (r.turns lines), r.left (r.turns lines)) := by
  induction lines generalizing r responses with
  | nil => rfl
  | cons line lines ih =>
    rcases h : r.step line with ⟨_ | _ | _, after⟩ <;>
      simp [runLines, turns, turn, Turn.goesOn, Turn.outcome, left_cons, h, ih] <;> rfl

theorem run_eq (r : Rig D) (program : Program) :
    r.run program = (Turn.outcome [] (r.turns program.lines), r.left (r.turns program.lines)) :=
  runLines_eq r [] program.lines

theorem mem_turns {r : Rig D} {lines : List ProgramLine} {t : Turn D} (h : t ∈ r.turns lines) :
    t = t.before.turn t.line ∧ t.line ∈ lines := by
  induction lines generalizing r with
  | nil => simp [turns] at h
  | cons line lines ih =>
    rw [turns, List.mem_cons] at h
    rcases h with rfl | h
    · exact ⟨rfl, List.mem_cons_self⟩
    · split at h
      · exact ⟨(ih h).1, List.mem_cons_of_mem _ (ih h).2⟩
      · simp at h

section Keeps

variable (P : Rig D → Prop) (Q : Turn D → Prop) {r : Rig D} {lines : List ProgramLine}

theorem turns_keep_of (hstep : ∀ r line, Q (r.turn line) → P r → P (r.step line).2) (hr : P r)
    (hturns : ∀ t ∈ r.turns lines, Q t) {t : Turn D} (h : t ∈ r.turns lines) : P t.before ∧ P t.after := by
  induction lines generalizing r with
  | nil => simp [turns] at h
  | cons line lines ih =>
    rw [turns] at h hturns
    have hnext : P (r.step line).2 := hstep r line (hturns _ List.mem_cons_self) hr
    rcases List.mem_cons.mp h with rfl | h
    · exact ⟨hr, hnext⟩
    · split at h
      · rename_i hgo
        rw [if_pos hgo] at hturns
        exact ih hnext (fun t ht => hturns t (List.mem_cons_of_mem _ ht)) h
      · simp at h

theorem left_keeps_of (hstep : ∀ r line, Q (r.turn line) → P r → P (r.step line).2) (hr : P r)
    (hturns : ∀ t ∈ r.turns lines, Q t) : P (r.left (r.turns lines)) := by
  unfold left
  cases h : (r.turns lines).getLast? with
  | none => exact hr
  | some t => exact (turns_keep_of P Q hstep hr hturns (List.mem_of_getLast? h)).2

/-- What every step keeps holds before and after every turn. -/
theorem turns_keep (hstep : ∀ r line, P r → P (r.step line).2) {r : Rig D} (hr : P r)
    {lines : List ProgramLine} {t : Turn D} (h : t ∈ r.turns lines) : P t.before ∧ P t.after :=
  turns_keep_of P (fun _ => True) (fun r line _ => hstep r line) hr (fun _ _ => trivial) h

theorem left_keeps (hstep : ∀ r line, P r → P (r.step line).2) {r : Rig D} (hr : P r)
    (lines : List ProgramLine) : P (r.left (r.turns lines)) :=
  left_keeps_of P (fun _ => True) (fun r line _ => hstep r line) hr fun _ _ => trivial

end Keeps

theorem turns_next (r : Rig D) (lines : List ProgramLine) (k : Nat) (t : Turn D)
    (h : (r.turns lines)[k]? = some t) (hgo : t.goesOn = true) :
    (r.turns lines)[k + 1]? = lines[k + 1]?.map t.after.turn := by
  induction lines generalizing r k with
  | nil => simp [turns] at h
  | cons line lines ih =>
    rw [turns] at h ⊢
    cases k with
    | zero =>
      simp only [List.getElem?_cons_zero, Option.some.injEq] at h
      rw [h, hgo]
      cases lines <;> simp [turns]
    | succ k =>
      simp only [List.getElem?_cons_succ] at h ⊢
      split at h
      · rename_i hgo'
        rw [if_pos hgo']
        exact ih _ k h
      · simp at h

theorem last_turn (r : Rig D) (responses : List Response) (lines : List ProgramLine)
    (h : endsEarly (Turn.outcome responses (r.turns lines)) = true) :
    ∃ t ∈ r.turns lines, t.goesOn = false ∧ r.left (r.turns lines) = t.after := by
  induction lines generalizing r responses with
  | nil => simp [turns, Turn.outcome, endsEarly, Outcome.isTerminated] at h
  | cons line lines ih =>
    rw [turns] at h ⊢
    cases hgo : (r.turn line).goesOn with
    | false => exact ⟨r.turn line, by simp, hgo, by simp [left]⟩
    | true =>
      rw [hgo] at h
      obtain ⟨answer, hflow⟩ : ∃ answer, (r.turn line).flow = .ok (.next answer) := by
        unfold Turn.goesOn at hgo
        split at hgo
        · exact ⟨_, by assumption⟩
        · simp at hgo
      simp only [Turn.outcome, hflow, if_true] at h
      obtain ⟨t, ht, hstop, hleft⟩ := ih _ _ h
      exact ⟨t, by simp [ht], hstop, by simpa [left_cons] using hleft⟩

/-! ## Views -/

section Views

variable {E : Type} [Driver E] {f : Rig D → Rig E}

theorem turns_view (hf : ∀ r line, (f r).step line = ((r.step line).1, f (r.step line).2)) (r : Rig D)
    (lines : List ProgramLine) : (f r).turns lines = (r.turns lines).map (Turn.view f) := by
  have hturn (r : Rig D) (line : ProgramLine) : (f r).turn line = (r.turn line).view f := by
    simp only [turn, Turn.view, hf]
  induction lines generalizing r with
  | nil => rfl
  | cons line lines ih =>
    rw [turns, turns, hturn, List.map_cons, apply_ite (List.map (Turn.view f)), ← ih]
    rfl

theorem runLines_view (hf : ∀ r line, (f r).step line = ((r.step line).1, f (r.step line).2)) (r : Rig D)
    (responses : List Response) (lines : List ProgramLine) :
    (f r).runLines responses lines =
      ((r.runLines responses lines).1, f (r.runLines responses lines).2) := by
  induction lines generalizing r responses with
  | nil => rfl
  | cons line lines ih =>
    simp only [runLines, hf]
    rcases r.step line with ⟨_ | _ | _, after⟩
    · rfl
    · exact ih after _
    · rfl

end Views

end Rig

end Engraver
