import Mathlib
import Engraver.Proofs.Hardware.Claims
import Engraver.Proofs.Number.Words

/-!
# The board's dead reckoning

The board knows where its belts stand only by counting. What it counted since the last homing that ran is
what its records say was taken since, and nothing but such a homing and a plan that starts moves the count.
-/

namespace Engraver

def Record.taken (r : Record) : Plan :=
  ⟨r.plan.steps.take r.executed⟩

namespace Plan

theorem totalA_cons (step : Step) (steps : List Step) :
    (Plan.mk (step :: steps)).totalA = step.a + (Plan.mk steps).totalA := rfl

theorem totalB_cons (step : Step) (steps : List Step) :
    (Plan.mk (step :: steps)).totalB = step.b + (Plan.mk steps).totalB := rfl

end Plan

namespace Board

/-! ## One motion -/

/-- The belts have moved by the travel of a plan. -/
def Moved (before after : Board) (p : Plan) : Prop :=
  after.a = before.a + p.totalA ∧ after.b = before.b + p.totalB

theorem Moved.refl (b : Board) : Moved b b ⟨[]⟩ := by
  simp [Moved, Plan.totalA, Plan.totalB]

/-- What becomes of the records when a plan is run: with a code it is put on record, and the time of the steps that were
taken has been counted; without one it is not, and that time is what the counter does not hold. -/
def Recorded (before after : List Record) (plan : Plan) (executed : Nat) : Option Int → Prop
  | some code => Plan.Fits ⟨plan.steps.take executed⟩ ∧ after = before ++ [⟨plan, executed, code⟩]
  | none => ¬ Plan.Fits ⟨plan.steps.take executed⟩ ∧ after = before

theorem advance_moved (trip : Option Trip) (executed : Nat) {elapsed : Nat} (helapsed : elapsed < 2 ^ 64) (b : Board)
    (steps : List Step) :
    ∃ n ≤ steps.length, (advance trip executed elapsed b steps).1 = executed + n ∧
      Moved b (advance trip executed elapsed b steps).2.2 ⟨steps.take n⟩ ∧
      ((advance trip executed elapsed b steps).2.1.isSome = true ↔
        elapsed + (Plan.mk (steps.take n)).duration < 2 ^ 64) := by
  induction steps generalizing executed elapsed b with
  | nil => exact ⟨0, le_rfl, rfl, Moved.refl b, iff_of_true rfl helapsed⟩
  | cons step steps ih =>
    have hmoved : Moved b (b.take step) ⟨[step]⟩ := by simp [Moved, Plan.totalA, Plan.totalB, take]
    have hone : (step :: steps).take 1 = [step] := rfl
    have hduration : (Plan.mk [step]).duration = step.duration := rfl
    rw [advance]
    split
    · exact ⟨0, Nat.zero_le _, rfl, Moved.refl b, iff_of_true rfl helapsed⟩
    · dsimp only
      rcases lt_or_ge (elapsed + step.duration) (2 ^ 64) with hfits | houtgrown
      · rw [Word.count?_eq hfits]
        dsimp only
        split
        · obtain ⟨n, hn, hcount, ⟨ha, hb⟩, hanswers⟩ := ih (executed + 1) hfits (b.take step)
          refine ⟨n + 1, by simpa using hn, by omega, ?_, ?_⟩
          · rw [Moved, List.take_succ_cons, Plan.totalA_cons, Plan.totalB_cons, ha, hb]
            simp only [take]
            omega
          · rw [hanswers, List.take_succ_cons, Plan.duration_cons, Nat.add_assoc]
        · -- A switch is pressed after this step: it is the last one taken.
          exact ⟨1, by simp, rfl, hmoved, iff_of_true rfl (by rwa [hone, hduration])⟩
      · rw [Word.count?_eq_none houtgrown]
        exact ⟨1, by simp, rfl, hmoved, iff_of_false (by simp) (by rw [hone, hduration]; omega)⟩

/-- A plan takes its first steps, none if it is kept from starting. -/
theorem run_moved (b : Board) (plan : Plan) :
    ∃ executed ≤ plan.length, Moved b (b.run plan).2 ⟨plan.steps.take executed⟩ ∧
      (b.gate.1.isSome = true → executed = 0) ∧
      Recorded b.records (b.run plan).2.records plan executed (b.run plan).1 := by
  obtain ⟨n, hn, hcount, ⟨ha, hb⟩, hanswers⟩ :=
    advance_moved b.trip 0 (Nat.two_pow_pos 64) { b with trip := none } plan.steps
  have hruns := b.runs plan
  generalize b.run plan = out at hruns ⊢
  cases hruns with
  | refused closed used =>
    exact ⟨0, Nat.zero_le _, Moved.refl b, fun _ => rfl, Nat.two_pow_pos 64, rfl⟩
  | answered opened taken =>
    rw [taken, Nat.zero_add] at hcount hanswers
    rw [taken] at ha hb
    obtain rfl : _ = n := hcount
    exact ⟨_, hn, ⟨ha, hb⟩, by simp [opened], hanswers.mp rfl, rfl⟩
  | panicked opened taken =>
    rw [taken, Nat.zero_add] at hcount hanswers
    rw [taken] at ha hb
    refine ⟨n, hn, ⟨ha, hb⟩, by simp [opened], fun hfits => ?_, rfl⟩
    cases hanswers.mpr hfits

end Board

namespace Handle

open Driver (serve)

/-! ## One request -/

/-- Whether a request is a homing that runs: it answers 0, and no injected code is answered in its place. -/
def homes (h : Handle) : Request → Bool
  | .home => (Driver.home h).1 == 0 && h.board.injected.isEmpty
  | _ => false

theorem serve_home (h : Handle) :
    (serve h .home).board.records = h.board.records ∧
      if h.homes .home then (serve h .home).board.a = 0 ∧ (serve h .home).board.b = 0
      else (serve h .home).board.a = h.board.a ∧ (serve h .home).board.b = h.board.b := by
  cases hc : h.claimed with
  | false => simp [serve, homes, Driver.home, hc, Status.hardwareFault]
  | true =>
    rcases Board.seek_cases h.board with ⟨code, codes, hi, hs⟩ | ⟨hi, hf, hs⟩ | ⟨hi, hf, hs⟩
    · simp [serve, homes, Driver.home, hc, hs, hi]
    · have hlifted : (Status.feetLifted == 0) = false := rfl
      simp [serve, homes, Driver.home, hc, hs, hlifted]
    · simp [serve, homes, Driver.home, hc, hs, hi]

theorem serve_execute (h : Handle) (hc : h.claimed = true) {plan : Plan} (hfits : plan.Fits) :
    ∃ executed ≤ plan.length,
      (serve h (.execute plan)).board.records =
        h.board.records ++ [⟨plan, executed, (Driver.execute plan h).1⟩] ∧
      h.board.Moved (serve h (.execute plan)).board ⟨plan.steps.take executed⟩ ∧
      (h.board.gate.1.isSome = true → executed = 0) := by
  obtain ⟨executed, hle, hmoved, hgate, hrecorded⟩ := h.board.run_moved plan
  rw [run_of_fits h hc hfits] at hrecorded
  rw [execute_board h hc]
  exact ⟨executed, hle, hrecorded.2, hmoved, hgate⟩

theorem serve_stays (h : Handle) (q : Request) (hhome : q ≠ .home)
    (hplan : ∀ plan, q = .execute plan → h.claimed = false) :
    (serve h q).board.records = h.board.records ∧ (serve h q).board.a = h.board.a ∧
      (serve h q).board.b = h.board.b := by
  cases q with
  | home => exact absurd rfl hhome
  | execute plan => simp [serve, Driver.execute, execute, hplan plan rfl]
  | readSwitches => exact ⟨rfl, rfl, rfl⟩
  | claim =>
    simp only [serve, Driver.claim, Handle.claim, Board.claim]
    cases h.claimed <;> cases h.board.initFailure <;> cases h.board.claimed <;> exact ⟨rfl, rfl, rfl⟩
  | release => cases hc : h.claimed <;> simp [serve, Driver.release, Handle.release, hc, Board.freed]
  | setMotors on => cases hc : h.claimed <;> simp [serve, Driver.setMotors, hc, Board.setMotors]
  | laserOff => cases hc : h.claimed <;> simp [serve, Driver.laserOff, hc]

end Handle

namespace Bench

open Driver (serve)

/-! ## One operation -/

def homes (b : Bench) : Op → Bool
  | .ask i q =>
    match b.handles[i]? with
    | some (some claimed) => Handle.homes ⟨b.board, claimed⟩ q
    | _ => false
  | _ => false

/-- The plan that an operation gives to the board, if a handle with the claim is asked to execute one. -/
def plan? (b : Bench) : Op → Option Plan
  | .ask i (.execute plan) => if b.handles[i]? = some (some true) then some plan else none
  | _ => none

/-- What an operation does to records and count: a plan moves the belts by the steps that were taken, and is put on
record unless the board panics, a homing that runs sets the count to zero, and all else leaves both alone. -/
def Counts (b : Bench) (op : Op) : Prop :=
  match b.plan? op with
  | some plan => ∃ executed ≤ plan.length,
      b.board.Moved (b.apply op).board ⟨plan.steps.take executed⟩ ∧
      (b.board.gate.1.isSome = true → executed = 0) ∧
      Board.Recorded b.board.records (b.apply op).board.records plan executed (b.board.run plan).1
  | none => (b.apply op).board.records = b.board.records ∧
      if b.homes op then (b.apply op).board.a = 0 ∧ (b.apply op).board.b = 0
      else (b.apply op).board.a = b.board.a ∧ (b.apply op).board.b = b.board.b

theorem counts_ask {b : Bench} {i : Nat} {c : Bool} (hi : b.handles[i]? = some (some c)) (q : Request) :
    b.Counts (.ask i q) := by
  have happly := apply_ask hi q
  by_cases hhome : q = .home
  · subst hhome
    simpa [Counts, plan?, homes, hi, happly] using Handle.serve_home ⟨b.board, c⟩
  · have hno : b.homes (.ask i q) = false := by
      cases q <;> simp_all [homes, Handle.homes]
    by_cases hplan : ∃ plan, q = .execute plan ∧ c = true
    · obtain ⟨plan, rfl, rfl⟩ := hplan
      have hboard := Handle.execute_board ⟨b.board, true⟩ rfl plan
      simpa [Counts, plan?, hi, happly, hboard] using b.board.run_moved plan
    · have hnone : b.plan? (.ask i q) = none := by
        cases q <;> simp_all [plan?]
      have hstays := Handle.serve_stays ⟨b.board, c⟩ q hhome (by simpa using hplan)
      simpa [Counts, hnone, hno, happly] using hstays

theorem counts_still {b : Bench} {op : Op} (hplan : b.plan? op = none) (hhome : b.homes op = false)
    (h : (b.apply op).board.records = b.board.records ∧ (b.apply op).board.a = b.board.a ∧
      (b.apply op).board.b = b.board.b) : b.Counts op := by
  simpa [Counts, hplan, hhome] using h

theorem counts (b : Bench) (op : Op) : b.Counts op := by
  have missing {i : Nat} (hi : ¬ ∃ c, b.handles[i]? = some (some c)) (hop : op.handle = some i)
      (hplan : b.plan? op = none) (hhome : b.homes op = false) : b.Counts op :=
    counts_still hplan hhome (by simp [apply_missing (not_exists.mp hi) hop])
  cases op with
  | add => exact counts_still rfl rfl ⟨rfl, rfl, rfl⟩
  | intervene x => exact counts_still rfl rfl (by cases x <;> exact ⟨rfl, rfl, rfl⟩)
  | ask i q =>
    by_cases hi : ∃ c, b.handles[i]? = some (some c)
    · obtain ⟨c, hi⟩ := hi
      exact counts_ask hi q
    · apply missing hi rfl
      · cases q <;> simp_all [plan?]
      · unfold homes
        split <;> simp_all
  | drop i =>
    by_cases hi : ∃ c, b.handles[i]? = some (some c)
    · obtain ⟨c, hi⟩ := hi
      apply counts_still rfl rfl
      rw [apply_drop hi]
      exact Handle.serve_stays ⟨b.board, c⟩ .release (by simp) (by simp)
    · exact missing hi rfl rfl rfl

theorem homes_of_plan {b : Bench} {op : Op} {plan : Plan} (h : b.plan? op = some plan) :
    b.homes op = false := by
  cases op with
  | ask i q =>
    cases q with
    | execute plan' => cases hi : b.handles[i]? with
      | none => simp [homes, hi]
      | some handle => cases handle <;> simp [homes, hi, Handle.homes]
    | _ => cases h
  | _ => cases h

/-- Whether the board panics over the plan that an operation gives to it. -/
def panics (b : Bench) (op : Op) : Bool :=
  match b.plan? op with
  | some plan => (b.board.run plan).1.isNone
  | none => false

theorem panics_of_plan {b : Bench} {op : Op} {plan : Plan} (h : b.plan? op = some plan) :
    b.panics op = (b.board.run plan).1.isNone := by
  rw [panics, h]

/-! ## Any interleaving -/

/-- A bench with the records that were made since the last homing that ran, and whether the board has panicked. -/
structure Reckoning where
  bench : Bench
  since : List Record := []
  panicked : Bool := false

namespace Reckoning

/-- The reckoning after one more thing is done. -/
def next (r : Reckoning) (op : Op) : Reckoning where
  bench := r.bench.apply op
  since :=
    if r.bench.homes op then []
    else r.since ++ (r.bench.apply op).board.records.drop r.bench.board.records.length
  panicked := r.panicked || r.bench.panics op

/-- The count is what the records since the last homing add up to. -/
structure Sound (r : Reckoning) : Prop where
  recent : r.since <:+ r.bench.board.records
  a : r.bench.board.a = (r.since.map fun record => record.taken.totalA).sum
  b : r.bench.board.b = (r.since.map fun record => record.taken.totalB).sum
  within : ∀ record ∈ r.bench.board.records, record.executed ≤ record.plan.length
  fits : ∀ record ∈ r.bench.board.records, record.taken.Fits

theorem Sound.next {r : Reckoning} (h : r.Sound) {op : Op} (hop : r.bench.panics op = false) : (r.next op).Sound := by
  obtain ⟨bench, since, panicked⟩ := r
  obtain ⟨hrecent, ha, hb, hwithin, hfits⟩ := h
  have hcounts := counts bench op
  unfold Counts at hcounts
  dsimp only [Reckoning.next] at *
  cases hp : bench.plan? op with
  | some plan =>
    rw [panics_of_plan hp] at hop
    obtain ⟨code, hcode⟩ := Option.isSome_iff_exists.mp (Option.isNone_eq_false_iff.mp hop)
    rw [hp] at hcounts
    obtain ⟨executed, hle, ⟨ha', hb'⟩, -, hrecorded⟩ := hcounts
    rw [hcode] at hrecorded
    obtain ⟨htaken, hrecords⟩ := hrecorded
    have hall {P : Record → Prop} (hold : ∀ record ∈ bench.board.records, P record) (hnew : P ⟨plan, executed, code⟩) :
        ∀ record ∈ (bench.apply op).board.records, P record := by
      rw [hrecords]
      exact List.forall_mem_append.mpr ⟨hold, List.forall_mem_singleton.mpr hnew⟩
    rw [if_neg (by simp [homes_of_plan hp])]
    refine ⟨?_, ?_, ?_, hall hwithin hle, hall hfits htaken⟩ <;> dsimp only <;> rw [hrecords, List.drop_left]
    · obtain ⟨old, hold⟩ := hrecent
      exact ⟨old, by rw [← List.append_assoc, hold]⟩
    · rw [ha', ha]
      simp [Record.taken]
    · rw [hb', hb]
      simp [Record.taken]
  | none =>
    rw [hp] at hcounts
    obtain ⟨hrecords, hcount⟩ := hcounts
    rw [hrecords, List.drop_length, List.append_nil]
    split at hcount
    · -- A homing has run, and the reckoning starts anew.
      rename_i hhome
      rw [if_pos hhome]
      exact ⟨List.nil_suffix, hcount.1, hcount.2, hrecords ▸ hwithin, hrecords ▸ hfits⟩
    · rename_i hhome
      rw [if_neg hhome]
      exact ⟨hrecords ▸ hrecent, hcount.1.trans ha, hcount.2.trans hb, hrecords ▸ hwithin, hrecords ▸ hfits⟩

end Reckoning

/-- The reckoning of a new board's bench after the things done, in order. -/
def reckoning (settings : BoardSettings) (ops : List Op) : Reckoning :=
  ops.foldl Reckoning.next ⟨⟨{ settings }, []⟩, [], false⟩

theorem reckoning_bench (settings : BoardSettings) (ops : List Op) :
    (reckoning settings ops).bench = after settings ops := by
  suffices h : ∀ r : Reckoning, (ops.foldl Reckoning.next r).bench = ops.foldl apply r.bench from h _
  induction ops with
  | nil => exact fun r => rfl
  | cons op ops ih => exact fun r => ih (r.next op)

theorem reckoning_sound (settings : BoardSettings) (ops : List Op) (h : (reckoning settings ops).panicked = false) :
    (reckoning settings ops).Sound := by
  refine List.foldlRecOn (motive := fun r => r.panicked = false → r.Sound) ops Reckoning.next ?_ ?_ h
  · exact fun _ => ⟨List.nil_suffix, rfl, rfl, by simp, by simp⟩
  · intro r hr op _ hnext
    obtain ⟨hbefore, hop⟩ := Bool.or_eq_false_iff.mp hnext
    exact (hr hbefore).next hop

/-- **Dead reckoning.** However handles are made, asked and dropped, and whatever is done to the board between, as
long as the board has not panicked the count of each belt is the sum of the steps taken of the plans on record since
the last homing that ran, and no plan takes more steps than it has. A plan that a handle with the claim executes moves
the belts by its first steps, none if it is kept from starting. If a 64-bit counter holds the time of these steps, the
plan is put on record, once; if not, the board panics and it is not. A plan and a homing that runs are all that changes
the count. -/
theorem count_is_dead_reckoned (settings : BoardSettings) (ops : List Op) :
    (reckoning settings ops).bench = after settings ops ∧
    ((reckoning settings ops).panicked = false →
      (reckoning settings ops).since <:+ (after settings ops).board.records ∧
      (after settings ops).board.a =
        ((reckoning settings ops).since.map fun record => record.taken.totalA).sum ∧
      (after settings ops).board.b =
        ((reckoning settings ops).since.map fun record => record.taken.totalB).sum ∧
      ∀ record ∈ (after settings ops).board.records,
        record.executed ≤ record.plan.length ∧ record.taken.Fits) ∧
    ∀ op : Op, (after settings ops).Counts op := by
  have hbench := reckoning_bench settings ops
  refine ⟨hbench, fun hpanicked => ?_, counts _⟩
  have h := reckoning_sound settings ops hpanicked
  rw [← hbench]
  exact ⟨h.recent, h.a, h.b, fun record hrecord => ⟨h.within record hrecord, h.fits record hrecord⟩⟩

/-- The count after a plan that was answered by an injected code, a plan that tripped after three of its
five steps, and a homing that was answered by an injected zero. -/
theorem count_after_tripped_plan :
    let plan : Plan := ⟨List.replicate 5 ⟨1, 1, false, 10⟩⟩
    let ops : List Op := [.add, .ask 0 .claim, .ask 0 .home, .intervene (.inject (-2)),
      .ask 0 (.execute plan), .intervene (.trip ⟨3, 8⟩), .ask 0 (.execute plan),
      .intervene (.inject 0), .ask 0 .home]
    (reckoning {} ops).panicked = false ∧ (reckoning {} ops).since = [⟨plan, 0, -2⟩, ⟨plan, 3, 8⟩] ∧
      (after {} ops).board.a = 3 ∧ ((after {} ops).apply (.ask 0 .home)).board.a = 0 := by
  intro plan ops
  have hpanicked : (reckoning {} ops).panicked = false := by decide +kernel
  have hsince : (reckoning {} ops).since = [⟨plan, 0, -2⟩, ⟨plan, 3, 8⟩] := by decide +kernel
  obtain ⟨-, hcount, hnext⟩ := count_is_dead_reckoned {} ops
  have hhome := (hnext (.ask 0 .home)).2
  have hruns : (after {} ops).homes (.ask 0 .home) = true := by decide +kernel
  rw [if_pos hruns] at hhome
  refine ⟨hpanicked, hsince, ?_, hhome.1⟩
  rw [(hcount hpanicked).2.1, hsince]
  rfl

/-- The time of a plan's first step fills its counter, and the second step overflows it. Both steps have moved the
belts, and no record says so. -/
theorem count_after_overlong_plan :
    let plan : Plan := ⟨[⟨1, 1, true, 18446744073709551615⟩, ⟨1, 1, true, 1⟩]⟩
    let ops : List Op := [.add, .ask 0 .claim, .ask 0 .home]
    let executed := ops ++ [.ask 0 (.execute plan)]
    (after {} ops).plan? (.ask 0 (.execute plan)) = some plan ∧ ((after {} ops).board.run plan).1 = none ∧
      (after {} executed).board.records = [] ∧ (reckoning {} executed).since = [] ∧
      (after {} executed).board.a = 2 ∧ (after {} executed).board.b = 2 ∧
      (after {} executed).board.laser = true := by
  decide +kernel

end Bench

end Engraver
