import Engraver.Hardware.Handle
import Engraver.Proofs.Hardware.Requests
import Engraver.Proofs.Number.Words

/-!
# What requests do to a board

A handle without the claim does nothing but ask for it, and a failure that awaits a claim shows in nothing else.
-/

namespace Engraver

namespace Board

/-- Motors and laser are off, and the board's place is forgotten. -/
def IsOff (b : Board) : Prop :=
  b.motors = false ∧ b.laser = false ∧ b.homed = false

/-- The second board is the first, but for the failure that awaits a claim. -/
def SameButFailure (before after : Board) : Prop :=
  ∃ failure, after = { before with initFailure := failure }

theorem SameButFailure.refl (b : Board) : SameButFailure b b :=
  ⟨b.initFailure, rfl⟩

theorem SameButFailure.symm {before after : Board} (h : SameButFailure before after) :
    SameButFailure after before := by
  obtain ⟨failure, rfl⟩ := h
  exact ⟨before.initFailure, rfl⟩

theorem SameButFailure.trans {first second third : Board} (h : SameButFailure first second)
    (h' : SameButFailure second third) : SameButFailure first third := by
  obtain ⟨failure, rfl⟩ := h
  obtain ⟨failure', rfl⟩ := h'
  exact ⟨failure', rfl⟩

/-! ## Plans -/

theorem advance_frame (trip : Option Trip) (executed elapsed : Nat) (board : Board) (steps : List Step) :
    ∃ a b laser, (advance trip executed elapsed board steps).2.2 = { board with a, b, laser } := by
  induction steps generalizing executed elapsed board with
  | nil => exact ⟨board.a, board.b, board.laser, rfl⟩
  | cons step steps ih =>
    rw [advance]
    split
    · exact ⟨board.a, board.b, board.laser, rfl⟩
    · dsimp only
      split
      · exact ⟨board.a + step.a, board.b + step.b, step.laser, rfl⟩
      · split
        · exact ih (executed + 1) _ (board.take step)
        · exact ⟨board.a + step.a, board.b + step.b, step.laser, rfl⟩

theorem advance_answers (trip : Option Trip) (executed : Nat) {elapsed : Nat} (board : Board) {steps : List Step}
    (hfits : elapsed + (Plan.mk steps).duration < 2 ^ 64) :
    ∃ code, (advance trip executed elapsed board steps).2.1 = some code := by
  induction steps generalizing executed elapsed board with
  | nil => exact ⟨0, rfl⟩
  | cons step steps ih =>
    rw [Plan.duration_cons] at hfits
    have hcount : Word.count? 64 (elapsed + step.duration) = some (elapsed + step.duration) := Word.count?_eq (by omega)
    rw [advance, hcount]
    split
    · exact ⟨_, rfl⟩
    · dsimp only
      split
      · exact ih (executed + 1) (board.take step) (by omega)
      · exact ⟨_, rfl⟩

theorem gate_cases (board : Board) : board.gate = (none, board) ∨
    ∃ code injected, injected <:+ board.injected ∧ board.gate = (some code, { board with injected }) := by
  unfold gate
  split
  · exact .inr ⟨_, board.injected, List.suffix_rfl, rfl⟩
  · split
    · rename_i code codes hi
      exact .inr ⟨code, codes, hi ▸ List.suffix_cons code codes, rfl⟩
    · split
      · exact .inr ⟨_, board.injected, List.suffix_rfl, rfl⟩
      · split
        · exact .inr ⟨_, board.injected, List.suffix_rfl, rfl⟩
        · exact .inl rfl

/-- A plan is kept from starting, gets a code on its way, or makes the board panic. -/
inductive Runs (board : Board) (plan : Plan) : Option Int × Board → Prop
  | refused {code : Int} {injected : List Int} (closed : board.gate.1 = some code)
      (used : injected <:+ board.injected) : Runs board plan (finish { board with injected } plan 0 code)
  | answered {executed : Nat} {code a b : Int} {laser : Bool} (opened : board.gate.1 = none)
      (taken : advance board.trip 0 0 { board with trip := none } plan.steps =
        (executed, some code, { board with a, b, laser, trip := none })) :
      Runs board plan (finish { board with a, b, laser, trip := none } plan executed code)
  | panicked {executed : Nat} {a b : Int} {laser : Bool} (opened : board.gate.1 = none)
      (taken : advance board.trip 0 0 { board with trip := none } plan.steps =
        (executed, none, { board with a, b, laser, trip := none })) :
      Runs board plan (none, { board with a, b, laser, trip := none })

theorem runs (board : Board) (plan : Plan) : board.Runs plan (board.run plan) := by
  unfold run
  rcases gate_cases board with hgate | ⟨code, injected, hused, hgate⟩
  · obtain ⟨a, b, laser, hframe⟩ := advance_frame board.trip 0 0 { board with trip := none } plan.steps
    rw [hgate]
    dsimp only
    rcases htaken : advance board.trip 0 0 { board with trip := none } plan.steps with ⟨executed, _ | code, after⟩ <;>
      rw [htaken] at hframe <;> subst hframe
    · exact .panicked (congrArg Prod.fst hgate) htaken
    · exact .answered (congrArg Prod.fst hgate) htaken
  · rw [hgate]
    exact .refused (congrArg Prod.fst hgate) hused

theorem run_frame (board : Board) (plan : Plan) : ∃ a b laser injected trip records,
    injected <:+ board.injected ∧ (trip = board.trip ∨ trip = none) ∧
      (board.run plan).2 = { board with a, b, laser, injected, trip, records } := by
  have hruns := board.runs plan
  generalize board.run plan = out at hruns ⊢
  cases hruns with
  | refused closed used => exact ⟨_, _, _, _, board.trip, _, used, .inl rfl, rfl⟩
  | answered opened taken => exact ⟨_, _, _, board.injected, none, _, List.suffix_rfl, .inr rfl, rfl⟩
  | panicked opened taken => exact ⟨_, _, _, board.injected, none, _, List.suffix_rfl, .inr rfl, rfl⟩

/-- A plan that gets a code leaves the laser off and is put on record with it; one that the board panics over is not. -/
theorem run_ends (board : Board) (plan : Plan) :
    match (board.run plan).1 with
    | some code => (board.run plan).2.laser = false ∧
        ∃ executed, (board.run plan).2.records = board.records ++ [⟨plan, executed, code⟩]
    | none => (board.run plan).2.records = board.records := by
  have hruns := board.runs plan
  generalize board.run plan = out at hruns ⊢
  cases hruns with
  | refused closed used => exact ⟨rfl, _, rfl⟩
  | answered opened taken => exact ⟨rfl, _, rfl⟩
  | panicked opened taken => rfl

theorem run_answers (board : Board) {plan : Plan} (hfits : plan.Fits) :
    ∃ code, (board.run plan).1 = some code := by
  have hruns := board.runs plan
  generalize board.run plan = out at hruns ⊢
  cases hruns with
  | refused closed used => exact ⟨_, rfl⟩
  | answered opened taken => exact ⟨_, rfl⟩
  | panicked opened taken =>
    have hcount : 0 + (Plan.mk plan.steps).duration < 2 ^ 64 := by rwa [Nat.zero_add]
    obtain ⟨code, hcode⟩ := advance_answers board.trip 0 { board with trip := none } hcount
    rw [taken] at hcode
    cases hcode

/-! ## Homing -/

theorem seek_cases (b : Board) :
    (∃ code codes, b.injected = code :: codes ∧ b.seek = (code, { b with injected := codes })) ∨
    (b.injected = [] ∧ b.feet = true ∧ b.seek = (Status.feetLifted, b)) ∨
    (b.injected = [] ∧ b.feet = false ∧ b.seek = (0, { b with a := 0, b := 0, homed := true })) := by
  unfold seek
  cases b.injected with
  | cons code codes => exact .inl ⟨code, codes, rfl, rfl⟩
  | nil => cases b.feet <;> simp

end Board

namespace Handle

open Driver (serve Worked)

theorem serve_unclaimed (h : Handle) (q : Request) (hc : h.claimed = false) (hq : q ≠ .claim) :
    serve h q = h := by
  cases q with
  | claim => exact absurd rfl hq
  | release => simp [serve, Driver.release, Handle.release, hc]
  | readSwitches => rfl
  | _ => simp [serve, Driver.setMotors, Driver.laserOff, Driver.home, Driver.execute, execute, hc]

theorem serve_claimed (h : Handle) (q : Request) (hc : h.claimed = true) (hq : q ≠ .release) :
    (serve h q).claimed = true ∧ (serve h q).board.claimed = h.board.claimed := by
  cases q with
  | claim => simp [serve, Driver.claim, Handle.claim, hc]
  | release => exact absurd rfl hq
  | setMotors on => simp [serve, Driver.setMotors, hc, Board.setMotors]
  | laserOff => simp [serve, Driver.laserOff, hc]
  | readSwitches => exact ⟨hc, rfl⟩
  | home =>
    simp only [serve, Driver.home, hc, if_true, Board.seek, true_and]
    split
    · rfl
    · split <;> rfl
  | execute plan =>
    obtain ⟨_, _, _, _, _, _, -, -, hr⟩ := Board.run_frame h.board plan
    simp [serve, Driver.execute, execute, hc, hr]

theorem execute_board (h : Handle) (hc : h.claimed = true) (plan : Plan) :
    (serve h (.execute plan)).board = (h.board.run plan).2 := by
  simp [serve, Driver.execute, execute, hc]

/-- No board panics over a plan that fits, and so the code that a driver answers is the board's. -/
theorem run_of_fits (h : Handle) (hc : h.claimed = true) {plan : Plan} (hfits : plan.Fits) :
    (h.board.run plan).1 = some (Driver.execute plan h).1 := by
  obtain ⟨code, hcode⟩ := h.board.run_answers hfits
  simp [Driver.execute, execute, hc, hcode]

theorem claimed_of_worked {h h' : Handle} (hw : Worked h h') (hc : h.claimed = true) :
    h'.claimed = true := by
  apply hw.keeps (fun h => h.claimed = true) _ hc
  intro h q hq hc
  exact (serve_claimed h q hc (by rintro rfl; simp [Request.keepsClaim] at hq)).1

theorem eq_of_worked {h h' : Handle} (hw : Worked h h') (hc : h.claimed = false) : h' = h := by
  apply hw.keeps (fun h' => h' = h) _ rfl
  rintro _ q hq rfl
  exact serve_unclaimed _ q hc (by rintro rfl; simp [Request.keepsClaim] at hq)

theorem claimed_eq_of_worked {h h' : Handle} (hw : Worked h h') : h'.claimed = h.claimed := by
  cases hc : h.claimed with
  | true => exact claimed_of_worked hw hc
  | false => rw [eq_of_worked hw hc, hc]

end Handle

/-! ## The failure that awaits a claim -/

namespace Board

/-- The same board with another failure that awaits a claim, or none. -/
def awaiting (b : Board) (failure : Option String) : Board :=
  { b with initFailure := failure }

section Awaiting

variable (b : Board) (failure : Option String)

theorem advance_awaiting (trip : Option Trip) (executed elapsed : Nat) (steps : List Step) :
    advance trip executed elapsed (b.awaiting failure) steps =
      ((advance trip executed elapsed b steps).1, (advance trip executed elapsed b steps).2.1,
        (advance trip executed elapsed b steps).2.2.awaiting failure) := by
  induction steps generalizing executed elapsed b with
  | nil => rfl
  | cons step steps ih =>
    have htake : (b.awaiting failure).take step = (b.take step).awaiting failure := rfl
    have hswitches : ((b.take step).awaiting failure).switches = (b.take step).switches := rfl
    rw [advance, advance, htake]
    cases trip.filter (·.steps = executed) with
    | some t => rfl
    | none =>
      dsimp only
      rw [hswitches]
      cases Word.count? 64 (elapsed + step.duration) with
      | none => rfl
      | some elapsed =>
        dsimp only
        split
        · exact ih (b.take step) (executed + 1) elapsed
        · rfl

theorem gate_awaiting : (b.awaiting failure).gate = (b.gate.1, b.gate.2.awaiting failure) := by
  cases hc : b.claimed with
  | false => simp [gate, awaiting, hc]
  | true =>
    cases hi : b.injected with
    | cons code codes => simp [gate, awaiting, hc, hi]
    | nil =>
      cases hh : b.settings.requireHoming && !b.homed <;> cases hf : b.feet <;>
        simp [gate, awaiting, hc, hi, hh, hf]

theorem run_awaiting (plan : Plan) :
    (b.awaiting failure).run plan = ((b.run plan).1, (b.run plan).2.awaiting failure) := by
  rw [run, run, gate_awaiting]
  rcases b.gate with ⟨_ | code, gated⟩
  · have hadvance := advance_awaiting { gated with trip := none } failure gated.trip 0 0 plan.steps
    simp only [awaiting] at hadvance
    simp only [awaiting, hadvance]
    rcases advance gated.trip 0 0 { gated with trip := none } plan.steps with ⟨executed, _ | code, after⟩ <;> rfl
  · rfl

theorem seek_awaiting : (b.awaiting failure).seek = (b.seek.1, b.seek.2.awaiting failure) := by
  rcases seek_cases b with ⟨code, codes, hi, hs⟩ | ⟨hi, hf, hs⟩ | ⟨hi, hf, hs⟩ <;> rw [hs]
  · simp [seek, awaiting, hi]
  · simp [seek, awaiting, hi, hf]
  · simp [seek, awaiting, hi, hf]

end Awaiting

end Board

namespace Handle

/-- The same handle with another failure awaiting a claim of its board. -/
def awaiting (failure : Option String) (h : Handle) : Handle :=
  { h with board := h.board.awaiting failure }

theorem awaiting_likeness (failure : Option String) : Driver.Likeness (awaiting failure) := by
  have hclaimed (h : Handle) : (h.awaiting failure).claimed = h.claimed := rfl
  constructor
  case readSwitches => exact fun _ => rfl
  case release =>
    intro h
    simp only [Driver.release, Handle.release, hclaimed]
    split <;> rfl
  case setMotors =>
    intro on h
    simp only [Driver.setMotors, hclaimed]
    split <;> rfl
  case laserOff =>
    intro h
    simp only [Driver.laserOff, hclaimed]
    split <;> rfl
  case home =>
    intro h
    have hseek : (h.awaiting failure).board.seek = _ := h.board.seek_awaiting failure
    simp only [Driver.home, hclaimed, hseek]
    split <;> rfl
  case execute =>
    intro plan h
    have hrun : (h.awaiting failure).board.run plan = _ := h.board.run_awaiting failure plan
    simp only [Driver.execute, execute, hclaimed, hrun]
    split <;> rfl

end Handle

end Engraver
