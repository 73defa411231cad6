import Engraver.Proofs.Machine.Agreement
import Engraver.Proofs.Machine.Stays
import Engraver.Proofs.Motion.Travel

/-!
# How far the belts stray from the position

The machine believes in the place that it was sent to, and the belts make whole steps. What a move rounds
off is carried nowhere, so every move may take the belts half a step further away from the position. Only a
homing brings them back.
-/

namespace Engraver

open Driver (serve)
open Double (value)

namespace Board

/-! ## Motions that run to their end -/

/-- No code that awaits a motion calls it complete when it was not. -/
structure IsTruthful (b : Board) : Prop where
  injected : (0 : Int) ∉ b.injected
  trip : ∀ t ∈ b.trip, t.switches ≠ 0

theorem IsTruthful.congr {b b' : Board} (h : b.IsTruthful) (hi : b'.injected <:+ b.injected)
    (ht : b'.trip = b.trip ∨ b'.trip = none) : b'.IsTruthful := by
  refine ⟨fun hzero => h.injected (hi.subset hzero), ?_⟩
  rcases ht with ht | ht <;> rw [ht]
  · exact h.trip
  · simp

theorem advance_completes {trip : Option Trip} (htrip : ∀ t ∈ trip, t.switches ≠ 0) (executed elapsed : Nat)
    (b : Board) (steps : List Step) (h : (advance trip executed elapsed b steps).2.1 = some 0) :
    (advance trip executed elapsed b steps).1 = executed + steps.length := by
  induction steps generalizing executed elapsed b with
  | nil => rfl
  | cons step steps ih =>
    rw [advance] at h ⊢
    split at h
    · rename_i t hfilter
      have hswitches := htrip t (Option.mem_filter_iff.mp hfilter).1
      exact absurd (Int.natCast_eq_zero.mp (Option.some.inj h)) hswitches
    · dsimp only at h ⊢
      split at h
      · cases h
      · rename_i counted hcount
        split at h
        · rename_i hclear
          rw [if_pos hclear, ih (executed + 1) counted (b.take step) h, List.length_cons]
          omega
        · rename_i hpressed
          exact absurd (beq_iff_eq.mpr (Int.natCast_eq_zero.mp (Option.some.inj h))) hpressed

theorem gate_code {b : Board} (h : b.IsTruthful) {code : Int} (hcode : b.gate.1 = some code) : code ≠ 0 := by
  unfold gate at hcode
  split at hcode
  · cases hcode
    decide
  · split at hcode
    · rename_i codes hi
      cases hcode
      rintro rfl
      exact h.injected (by simp [hi])
    · split at hcode
      · cases hcode
        decide
      · split at hcode
        · cases hcode
          decide
        · cases hcode

theorem run_completes {b : Board} (ht : b.IsTruthful) {plan : Plan} (h : (b.run plan).1 = some 0) :
    b.Moved (b.run plan).2 plan := by
  obtain ⟨n, hn, hcount, hmoved, -⟩ :=
    advance_moved b.trip 0 (Nat.two_pow_pos 64) { b with trip := none } plan.steps
  have hall := advance_completes ht.trip 0 0 { b with trip := none } plan.steps
  have hruns := b.runs plan
  generalize b.run plan = out at h hruns ⊢
  cases hruns with
  | refused closed used => exact absurd (Option.some.inj h) (gate_code ht closed)
  | answered opened taken =>
    rw [taken] at hcount hmoved hall
    have hlast := hall h
    dsimp only at hcount hlast
    obtain rfl : n = plan.steps.length := by omega
    rwa [List.take_length] at hmoved
  | panicked opened taken => cases h

theorem IsTruthful.serve {h : Handle} (ht : h.board.IsTruthful) (q : Request) :
    (serve h q).board.IsTruthful := by
  cases hc : h.claimed with
  | false =>
    by_cases hq : q = .claim
    · subst hq
      simp only [Driver.serve, Driver.claim, Handle.claim, hc, Board.claim]
      cases h.board.initFailure <;> cases h.board.claimed <;>
        exact ht.congr List.suffix_rfl (.inl rfl)
    · rwa [Handle.serve_unclaimed h q hc hq]
  | true =>
    cases q with
    | claim => simpa [Driver.serve, Driver.claim, Handle.claim, hc] using ht
    | release =>
      simp only [Driver.serve, Driver.release, Handle.release, hc, if_true]
      exact ht.congr List.suffix_rfl (.inl rfl)
    | setMotors on =>
      simp only [Driver.serve, Driver.setMotors, hc, if_true]
      exact ht.congr List.suffix_rfl (.inl rfl)
    | laserOff =>
      simp only [Driver.serve, Driver.laserOff, hc, if_true]
      exact ht.congr List.suffix_rfl (.inl rfl)
    | readSwitches => exact ht
    | home =>
      simp only [Driver.serve, Driver.home, hc, if_true]
      rcases seek_cases h.board with ⟨code, codes, hi, hs⟩ | ⟨-, -, hs⟩ | ⟨-, -, hs⟩ <;> rw [hs]
      · exact ht.congr (hi ▸ List.suffix_cons code codes) (.inl rfl)
      · exact ht
      · exact ht.congr List.suffix_rfl (.inl rfl)
    | execute plan =>
      obtain ⟨_, _, _, _, _, _, hinjected, htrip, hframe⟩ := run_frame h.board plan
      rw [Handle.execute_board h hc]
      exact ht.congr (hframe ▸ hinjected) (hframe ▸ htrip)

end Board

namespace Handle

theorem execute_completes {h : Handle} (ht : h.board.IsTruthful) {plan : Plan} (hfits : plan.Fits)
    (hcode : (Driver.execute plan h).1 = 0) : h.board.Moved (serve h (.execute plan)).board plan := by
  cases hc : h.claimed with
  | false =>
    simp only [Driver.execute, execute, hc] at hcode
    cases hcode
  | true =>
    have hrun := run_of_fits h hc hfits
    rw [execute_board h hc]
    exact Board.run_completes ht (hcode ▸ hrun)

theorem home_completes {h : Handle} (ht : h.board.IsTruthful) (hcode : (Driver.home h).1 = 0) :
    (serve h .home).board.a = 0 ∧ (serve h .home).board.b = 0 := by
  cases hc : h.claimed with
  | false =>
    simp only [Driver.home, hc] at hcode
    cases hcode
  | true =>
    simp only [serve, Driver.home, hc, if_true] at hcode ⊢
    rcases Board.seek_cases h.board with ⟨code, codes, hi, hs⟩ | ⟨-, -, hs⟩ | ⟨-, -, hs⟩ <;> rw [hs] at hcode ⊢
    · obtain rfl : code = 0 := hcode
      exact absurd (by simp [hi]) ht.injected
    · cases hcode
    · exact ⟨rfl, rfl⟩

end Handle

/-! ## One turn -/

namespace Command

def isMove : Command → Bool
  | move .. => true
  | _ => false

end Command

def isFault {α : Type} : Except ExecutionError α → Bool
  | .error (.motion ..) => true
  | _ => false

namespace Turn

variable {D : Type}

def completesMove (t : Turn D) : Bool :=
  t.line.command.isMove && t.flow.isOk

/-- The command leaves the position to the motions, no motion fails, and the turn ends at a place within `M`
millimetres. -/
structure Orderly (M : ℚ) (t : Turn D) : Prop where
  keeps : t.line.command.keepsPlace = true
  runs : isFault t.flow = false
  within : t.after.machine.position.Within M

instance (M : ℚ) (t : Turn D) : Decidable (t.Orderly M) :=
  decidable_of_iff (t.line.command.keepsPlace = true ∧ isFault t.flow = false ∧
      t.after.machine.position.Within M)
    ⟨fun ⟨hkeeps, hruns, hwithin⟩ => ⟨hkeeps, hruns, hwithin⟩, fun h => ⟨h.keeps, h.runs, h.within⟩⟩

end Turn

namespace Rig

/-- How far each belt is from where the position would have it, in steps. -/
def drift (r : Rig Handle) : OnBelts ℚ where
  a := r.driver.board.a - (value r.machine.position.x + value r.machine.position.y) * value r.machine.stepCal
  b := r.driver.board.b - (value r.machine.position.x - value r.machine.position.y) * value r.machine.stepCal

theorem Stays.drift {r r' : Rig Handle} (h : r.Stays r') : r'.drift = r.drift := by
  unfold Rig.drift
  rw [h.a, h.b, h.position, h.stepCal]

/-- The drive is square and calibrated, the board answers truthfully, the position is a place within `M`
millimetres, and the belts are at most as far from it as `moves` moves may take them. -/
structure Near (stepCal : Float) (M : ℚ) (moves : Nat) (r : Rig Handle) : Prop where
  truthful : r.driver.board.IsTruthful
  calibrated : r.machine.stepCal = stepCal
  square : (r.machine.skew == 0) = true
  position : r.machine.position.Within M
  a : |r.drift.a| ≤ moves * moveSlack (value stepCal) M
  b : |r.drift.b| ≤ moves * moveSlack (value stepCal) M

variable {stepCal : Float} {M : ℚ} {moves : Nat} {r : Rig Handle}

theorem Near.stays {r' : Rig Handle} (h : r.Near stepCal M moves) (hs : r.Stays r')
    (ht : r'.driver.board.IsTruthful) : r'.Near stepCal M moves :=
  ⟨ht, hs.stepCal.trans h.calibrated, hs.skew ▸ h.square, hs.position ▸ h.position, hs.drift ▸ h.a,
    hs.drift ▸ h.b⟩

theorem Near.nonneg (h : r.Near stepCal M moves) : 0 ≤ M :=
  (abs_nonneg _).trans h.position.x

theorem truthful_of_worked {r r' : Rig Handle} (hw : Driver.Worked r.driver r'.driver)
    (h : r.driver.board.IsTruthful) : r'.driver.board.IsTruthful :=
  hw.keeps (fun d => d.board.IsTruthful) (fun _ q _ ht => ht.serve q) h

theorem near_origin {r : Rig Handle} (ht : r.driver.board.IsTruthful)
    (hsquare : (r.machine.skew == 0) = true) (hplace : r.machine.position = ⟨0, 0⟩)
    (ha : r.driver.board.a = 0) (hb : r.driver.board.b = 0) (hM : 0 ≤ M) (moves : Nat) :
    r.Near r.machine.stepCal M moves := by
  obtain ⟨hfinite, hzero⟩ := Double.value_zero
  have hslack : 0 ≤ moves * moveSlack (value r.machine.stepCal) M :=
    mul_nonneg (Nat.cast_nonneg moves) (moveSlack_nonneg hM)
  refine ⟨ht, rfl, hsquare, ?_, ?_, ?_⟩
  · rw [hplace]
    exact ⟨⟨hfinite, hfinite⟩, by simpa [hzero] using hM, by simpa [hzero] using hM⟩
  · simpa [drift, hplace, hzero, ha] using hslack
  · simpa [drift, hplace, hzero, hb] using hslack

theorem home_near {r : Rig Handle} (ht : r.driver.board.IsTruthful) (hsquare : (r.machine.skew == 0) = true)
    (hok : r.home.1.isOk = true) (hM : 0 ≤ M) (moves : Nat) : r.home.2.Near r.machine.stepCal M moves := by
  obtain ⟨hdriver, hh⟩ := home_spec r
  split at hh
  · rename_i hcode
    obtain ⟨ha, hb⟩ := Handle.home_completes (ht.serve (.setMotors true)) hcode
    rw [← hdriver] at ha hb
    have htruthful := truthful_of_worked (home_quiet r).worked ht
    obtain ⟨-, hmachine⟩ := hh
    have hcal : r.home.2.machine.stepCal = r.machine.stepCal := by rw [hmachine]
    rw [← hcal]
    exact near_origin htruthful (by rwa [hmachine]) (by rw [hmachine]) ha hb hM moves
  · rw [hh.1] at hok
    cases hok

theorem abs_le_of_add {moves : Nat} {before after added slack : ℚ} (h : |before| ≤ moves * slack)
    (hadded : |added| ≤ slack) (hafter : after = before + added) : |after| ≤ (moves + 1 : Nat) * slack := by
  rw [hafter, Nat.cast_succ, add_one_mul]
  exact (abs_add_le _ _).trans (add_le_add h hadded)

/-- A move that runs takes the belts further away by its slack at most. -/
theorem move_near (h : r.Near stepCal M moves) (m : Move) (hok : (r.move m).1.isOk = true)
    (hwithin : (r.move m).2.machine.position.Within M) : (r.move m).2.Near stepCal M (moves + 1) := by
  cases hplan : (r.machine.fed m.kind m.feedrate).plan m.kind (r.machine.delta m.x m.y) with
  | error refusal =>
    rw [(move_of_refused r m refusal hplan).1] at hok
    cases hok
  | ok plan =>
    obtain ⟨hdriver, hm⟩ := move_of_planned r m plan hplan
    obtain ⟨hcal, hskew⟩ := r.machine.fed_drive m.kind m.feedrate
    split at hm
    · rename_i hcode
      obtain ⟨-, hmachine⟩ := hm
      obtain ⟨ha, hb⟩ := Handle.execute_completes h.truthful (Machine.plan_fits hplan) hcode
      have hplace : (r.move m).2.machine.position = r.machine.target m.x m.y := by rw [hmachine]
      have hstart : (r.machine.fed m.kind m.feedrate).position.Within M := by simpa using h.position
      obtain ⟨hsumA, hsumB⟩ := Machine.plan_close hplan (hskew ▸ h.square) hstart hwithin
        (by rw [hplace]; simp [Machine.target])
      have hcal' : (r.move m).2.machine.stepCal = r.machine.stepCal := by rw [hmachine]; exact hcal
      rw [← hdriver] at ha hb
      rw [hcal, h.calibrated, Machine.fed_position] at hsumA hsumB
      refine ⟨truthful_of_worked (move_worked r m) h.truthful, hcal'.trans h.calibrated, ?_, hwithin,
        abs_le_of_add h.a hsumA ?_, abs_le_of_add h.b hsumB ?_⟩
      · rw [hmachine]
        exact hskew ▸ h.square
      · simp only [drift, hcal', h.calibrated, ha]
        push_cast
        ring
      · simp only [drift, hcal', h.calibrated, hb]
        push_cast
        ring
    · rw [hm.1] at hok
      cases hok

theorem Near.aborted (h : r.Near stepCal M moves) (notice : Notice) :
    (r.notify notice).shutDown.Near stepCal M moves := by
  have hwarned : (r.notify notice).Near stepCal M moves := h.stays ⟨rfl, rfl, rfl, rfl, rfl⟩ h.truthful
  exact hwarned.stays (shutDown_stays _) (truthful_of_worked (shutDown_quiet _).worked hwarned.truthful)

theorem perform_near (h : r.Near stepCal M moves) (line : Nat) {command : Command}
    (hkeeps : command.keepsPlace = true) (hruns : isFault (r.perform line command).1 = false)
    (hwithin : (r.perform line command).2.machine.position.Within M) :
    (r.perform line command).2.Near stepCal M
      (moves + if command.isMove && (r.perform line command).1.isOk then 1 else 0) := by
  have htruthful := truthful_of_worked (perform_worked r line command) h.truthful
  by_cases hmove : ∃ kind x y feedrate, command = .move kind x y feedrate
  · obtain ⟨kind, x, y, feedrate, rfl⟩ := hmove
    rw [perform_move] at hruns hwithin ⊢
    rcases hresult : (r.move ⟨kind, x, y, feedrate⟩).1 with ⟨fault | refusal⟩ | summary <;>
      rw [hresult] at hruns hwithin
    · cases hruns
    · have hrefused := h.stays (move_stays r _ refusal hresult)
        (truthful_of_worked (move_worked r _) h.truthful)
      exact hrefused.aborted _
    · exact move_near h _ (by rw [hresult]; rfl) hwithin
  · by_cases hhome : command = .home
    · subst hhome
      rw [perform_home] at hruns ⊢
      rcases hresult : r.home.1 with fault | answer <;> rw [hresult] at hruns
      · cases hruns
      · rw [← h.calibrated]
        exact home_near h.truthful h.square (by rw [hresult]; rfl) h.nonneg _
    · have hno : command.isMove = false := by
        cases command with
        | move kind x y feedrate => exact absurd ⟨kind, x, y, feedrate, rfl⟩ hmove
        | _ => rfl
      rw [hno]
      exact h.stays (perform_stays r line hkeeps (by simpa using hmove) hhome) htruthful

theorem turn_near (h : r.Near stepCal M moves) (line : ProgramLine) (ht : (r.turn line).Orderly M) :
    (r.turn line).after.Near stepCal M (moves + if (r.turn line).completesMove then 1 else 0) := by
  obtain ⟨hkeeps, hruns, hwithin⟩ := ht
  have hlooked : r.looked.Near stepCal M moves := h.stays ⟨rfl, rfl, rfl, rfl, rfl⟩ h.truthful
  cases hs : r.stop.take.1 with
  | true =>
    have hstopped : (r.turn line).completesMove = false := by
      simp [Turn.completesMove, turn, step_stopped r line hs, Except.isOk, Except.toBool]
    rw [hstopped, turn, step_stopped r line hs]
    exact hlooked.aborted _
  | false =>
    simp only [turn, step_unstopped r line hs, Turn.completesMove] at hkeeps hruns hwithin ⊢
    exact perform_near hlooked line.line hkeeps hruns hwithin

/-- In a run they stray by the slack of as many moves as it completes. -/
theorem turns_near (h : r.Near stepCal M moves) (lines : List ProgramLine)
    (ht : ∀ t ∈ r.turns lines, t.Orderly M) :
    (r.left (r.turns lines)).Near stepCal M (moves + (r.turns lines).countP Turn.completesMove) := by
  induction lines generalizing r moves with
  | nil => simpa [turns, left] using h
  | cons line lines ih =>
    rw [turns] at ht ⊢
    rw [left_cons, List.countP_cons, add_comm (List.countP _ _), ← add_assoc]
    have hturn := turn_near h line (ht _ List.mem_cons_self)
    cases hgo : (r.turn line).goesOn with
    | true =>
      rw [hgo] at ht
      exact ih hturn fun t hmem => ht t (List.mem_cons_of_mem _ hmem)
    | false => simpa [left] using hturn

end Rig

end Engraver
