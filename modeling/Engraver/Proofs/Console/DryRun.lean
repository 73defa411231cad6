import Engraver.Console.Tasks
import Engraver.Proofs.Machine.Arming
import Engraver.Proofs.Machine.Sequence
import Engraver.Proofs.Machine.Speeds
import Engraver.Proofs.Motion.Reach
import Engraver.Proofs.Number.Arithmetic
import Engraver.Proofs.Session.Lasting
import Engraver.Proofs.Session.Lock
import Engraver.Proofs.Session.Speeds

/-!
# The dry run

The dry run builds the state of the machine by itself, and takes the place that a move is to go to for the way
that it goes. A session comes to the same plan from its own state, its mode and where it stands, as long as
nothing but homings and armings ran since it was opened.
-/

namespace Engraver

def Move.shown (target : Point Float) (cut : Bool) : Move :=
  ⟨if cut then .controlled else .rapid, some target.x, some target.y, none⟩

/-- The command for the move that the dry run shows. -/
def Command.shown (target : Point Float) (cut : Bool) : Command :=
  .move (if cut then .controlled else .rapid) (some target.x) (some target.y) none

/-- A homing, or the command that arms the laser with power 1. -/
def Command.prepares (command : Command) : Prop :=
  command = .home ∨ command = .laserOn (some 1)

/-- The machine switched on, with its picture. -/
def Machine.switchedOn (settings : Settings) (raster : Raster) : Machine :=
  { Machine.powerOn settings with raster }

variable {D : Type} [Driver D]

namespace Rig

/-- Nothing but homings and armings ran since the machine was switched on. -/
structure Untouched (settings : Settings) (raster : Raster) (r : Rig (Taped D)) : Prop where
  machine : ∃ laser power homed motors,
    r.machine = { Machine.switchedOn settings raster with laser, power, homed, motors }
  stop : r.stop = {}
  plans : r.driver.tape.filterMap Request.plan? = []

variable {settings : Settings} {raster : Raster} {r : Rig (Taped D)}

omit [Driver D] in
theorem Untouched.looked (h : r.Untouched settings raster) : r.stop.take.1 = false ∧ r.looked = r := by
  have hstop := h.stop
  obtain ⟨machine, driver, stats, stop, log⟩ := r
  cases hstop
  exact ⟨rfl, rfl⟩

theorem Untouched.step_eq (h : r.Untouched settings raster) (line : ProgramLine) :
    r.step line = r.perform line.line line.command := by
  rw [step_unstopped r line h.looked.1, h.looked.2]

/-! ## Getting ready -/

theorem prepared_machine (r : Rig D) (line : Nat) {command : Command} (hcommand : command.prepares)
    (horigin : r.machine.position = ⟨0, 0⟩) : ∃ laser power homed motors,
      (r.perform line command).2.machine = { r.machine with laser, power, homed, motors } := by
  rcases hcommand with rfl | rfl
  · rw [perform_home]
    obtain ⟨laser, motors, homed, hend⟩ := concluded_machine r.home.2 line (r.home.1.mapError .fault)
    have hhome := (home_spec r).2
    split at hhome
    · exact ⟨laser, _, homed, motors, by rw [hend, hhome.2, ← horigin]⟩
    · exact ⟨laser, _, homed, motors, by rw [hend, hhome.2]⟩
  · exact ⟨true, 1, _, _, rfl⟩

theorem prepared_flow (r : Rig D) (line : Nat) {command : Command} (hcommand : command.prepares) {flow : Flow}
    (h : (r.perform line command).1 = .ok flow) : flow = .next none := by
  rcases hcommand with rfl | rfl
  · rw [perform_home] at h
    cases hresult : r.home.1.mapError MotionError.fault with
    | error e =>
      rw [hresult] at h
      cases h
    | ok done =>
      rw [hresult] at h
      cases h
      rfl
  · cases h
    rfl

theorem Untouched.step (h : r.Untouched settings raster) (line : ProgramLine)
    (hline : line.command.prepares) : (r.step line).2.Untouched settings raster := by
  rw [h.step_eq]
  obtain ⟨laser, power, homed, motors, hmachine⟩ := h.machine
  have hquiet : Driver.Quiet r.driver (r.perform line.line line.command).2.driver := by
    apply perform_quiet
    intro kind x y feedrate hmove
    rcases hline with hno | hno <;> rw [hno] at hmove <;> cases hmove
  refine ⟨?_, (perform_stop r line.line line.command).trans h.stop,
    (Taped.plans_of_quiet hquiet).trans h.plans⟩
  obtain ⟨laser', power', homed', motors', hafter⟩ :=
    prepared_machine r line.line hline (by rw [hmachine]; rfl)
  exact ⟨laser', power', homed', motors', by rw [hafter, hmachine]⟩

theorem Untouched.step_ends (h : r.Untouched settings raster) (line : ProgramLine)
    (hline : line.command.prepares) {flow : Flow} (hok : (r.step line).1 = .ok flow) :
    flow = .next none ∧ ((r.machine.laser = true ∨ line.command = .laserOn (some 1)) →
      (r.step line).2.machine.laser = true) := by
  have hlaser := perform_laser r line.line line.command
  rw [← h.step_eq line, hok] at hlaser
  rw [h.step_eq line] at hok
  refine ⟨prepared_flow r line.line hline hok, ?_⟩
  rintro (harmed | harming)
  · rcases hline with hcommand | hcommand <;> rw [hlaser, hcommand]
    · exact harmed
    · rfl
  · rw [hlaser, harming]
    rfl

/-- A preparation keeps the rig untouched, also one that fails. If it runs, it comes to its end, and the laser is
armed if it was before or is by one of its lines. -/
theorem Untouched.runLines (h : r.Untouched settings raster) {lines : List ProgramLine}
    (hlines : ∀ line ∈ lines, line.command.prepares) (answers : List Response) :
    (r.runLines answers lines).2.Untouched settings raster ∧
      ∀ outcome, (r.runLines answers lines).1 = .ok outcome → outcome = .completed answers ∧
        ((r.machine.laser = true ∨ ∃ line ∈ lines, line.command = .laserOn (some 1)) →
          (r.runLines answers lines).2.machine.laser = true) := by
  induction lines generalizing r with
  | nil =>
    refine ⟨h, ?_⟩
    rintro outcome ⟨⟩
    refine ⟨rfl, ?_⟩
    rintro (harmed | ⟨line, hmem, -⟩)
    · exact harmed
    · cases hmem
  | cons line lines ih =>
    have hline := hlines line List.mem_cons_self
    have hnext := h.step line hline
    have hends (flow : Flow) (hok : (r.step line).1 = .ok flow) :=
      h.step_ends line hline hok
    rw [Rig.runLines]
    rcases hstep : r.step line with ⟨e | flow, after⟩ <;> rw [hstep] at hnext hends
    · exact ⟨hnext, by rintro outcome ⟨⟩⟩
    · obtain ⟨rfl, harms⟩ := hends flow rfl
      obtain ⟨hafter, hrest⟩ := ih hnext (fun line hmem => hlines line (List.mem_cons_of_mem _ hmem))
      simp only [Option.toList_none, List.append_nil]
      refine ⟨hafter, ?_⟩
      intro outcome hok
      obtain ⟨hend, harm⟩ := hrest outcome hok
      refine ⟨hend, ?_⟩
      rintro (harmed | ⟨arming, hmem, harming⟩)
      · exact harm (.inl (harms (.inl harmed)))
      · rcases List.mem_cons.mp hmem with rfl | hmem
        · exact harm (.inl (harms (.inr harming)))
        · exact harm (.inr ⟨arming, hmem, harming⟩)

/-! ## The move -/

omit [Driver D] in
theorem Untouched.plan_shown (h : r.Untouched settings raster) {target : Point Float}
    (htarget : target.IsFinite) {cut : Bool} (hcut : cut = true → r.machine.laser = true) :
    r.machine.plan (if cut then .controlled else .rapid) (r.machine.delta (some target.x) (some target.y)) =
      (Machine.switchedOn settings raster).dryRun target cut := by
  obtain ⟨laser, power, homed, motors, hmachine⟩ := h.machine
  have hdelta : r.machine.delta (some target.x) (some target.y) = target := by
    rw [hmachine]
    exact congrArg₂ Point.mk (Double.sub_zero htarget.1) (Double.sub_zero htarget.2)
  rw [hdelta]
  cases cut with
  | false =>
    -- A rapid move does not cut, whether the laser is armed or not.
    rw [hmachine]
    rfl
  | true =>
    have harmed := hcut rfl
    rw [hmachine] at harmed ⊢
    cases harmed
    rfl

theorem Untouched.step_shown (h : r.Untouched settings raster) {target : Point Float}
    (htarget : target.IsFinite) {cut : Bool} (hcut : cut = true → r.machine.laser = true) (n : Nat) :
    match (Machine.switchedOn settings raster).dryRun target cut with
    | .ok plan =>
      (r.step ⟨n, .shown target cut⟩).2.driver.tape.filterMap Request.plan? = [plan] ∧
        ∀ line refusal, (r.step ⟨n, .shown target cut⟩).1 ≠ .error (.plan line refusal)
    | .error refusal =>
      (r.step ⟨n, .shown target cut⟩).1 = .error (.plan n refusal) ∧
        (r.move (.shown target cut)).2.driver = r.driver ∧
        (r.step ⟨n, .shown target cut⟩).2.driver.tape = r.driver.tape ++ [.laserOff, .setMotors false] := by
  have hplan := h.plan_shown htarget hcut
  have hperform : r.step ⟨n, .shown target cut⟩ = (r.move (.shown target cut)).2.concluded n
      ((r.move (.shown target cut)).1.map fun _ => ()) := by
    rw [h.step_eq]
    exact perform_move r n _ _ _ _
  rw [hperform]
  cases hdry : (Machine.switchedOn settings raster).dryRun target cut with
  | error refusal =>
    rw [hdry] at hplan
    obtain ⟨hresult, hdriver, -⟩ := move_of_refused r (.shown target cut) refusal hplan
    rw [hresult]
    refine ⟨rfl, hdriver, ?_⟩
    -- Of the two requests on the tape neither is the move's: the abort switches off.
    simp [Except.map, concluded, abort, shutDown_driver, hdriver, Taped.serve_eq, Taped.record]
  | ok plan =>
    rw [hdry] at hplan
    obtain ⟨hdriver, hmoved⟩ := move_of_planned r (.shown target cut) plan hplan
    refine ⟨?_, ?_⟩
    · rw [Taped.plans_of_quiet (concluded_quiet _ _ _), hdriver, Taped.serve_eq, Taped.record,
        List.filterMap_append, h.plans]
      rfl
    · intro line refusal hno
      split at hmoved <;> rw [hmoved.1] at hno <;> cases hno

theorem run_one {E : Type} [Driver E] (r : Rig E) (line : ProgramLine) :
    (r.run ⟨[line]⟩).2 = (r.step line).2 ∧
      ∀ e, (r.run ⟨[line]⟩).1 = .error e ↔ (r.step line).1 = .error e := by
  rw [run, runLines]
  rcases r.step line with ⟨_ | _ | _, after⟩ <;> simp [runLines]

end Rig

/-! ## In a session -/

namespace Session

variable {settings : Settings} {picture : Except RasterFault Mask} {d : D} {s : Session (Taped D)}

theorem start_untouched (h : start settings picture ⟨d, []⟩ = .ok s) : s.isActive = true ∧
    ∃ raster, Machine.initial settings picture = .ok (Machine.switchedOn settings raster) ∧
      s.rig.Untouched settings raster := by
  obtain ⟨-, machine, hmachine, rfl⟩ := start_ok_iff.mp h
  obtain ⟨raster, rfl⟩ := Machine.initial_eq hmachine
  exact ⟨rfl, raster, hmachine, ⟨_, _, _, _, rfl⟩, rfl, rfl⟩

theorem run_unended {E : Type} [Driver E] {s : Session E} (h : s.isActive = true) {lines : List ProgramLine}
    (hlines : ∀ line ∈ lines, line.command ≠ .stop .final) : s.run ⟨lines⟩ =
      ((s.rig.run ⟨lines⟩).1.mapError .execution, { s with rig := (s.rig.run ⟨lines⟩).2 }) := by
  have hends := s.rig.outcome_terminated_iff [] lines
  have hresult := congrArg Prod.fst (s.rig.run_eq ⟨lines⟩)
  rw [run, h]
  rcases hrun : s.rig.run ⟨lines⟩ with ⟨e | ⟨answers⟩ | ⟨line, answers⟩, rig⟩
  · rfl
  · simp [Except.mapError, Outcome.isTerminated]
  · rw [hrun] at hresult
    obtain ⟨t, ht, hfinal⟩ := hends.mp ⟨line, answers, hresult.symm⟩
    exact absurd hfinal.1 (hlines t.line (Rig.mem_turns ht).2)

theorem run_prepares {raster : Raster} (hactive : s.isActive = true) (hrig : s.rig.Untouched settings raster)
    {prelude : List ProgramLine} (hprelude : ∀ line ∈ prelude, line.command.prepares) :
    (s.run ⟨prelude⟩).2.isActive = true ∧ (s.run ⟨prelude⟩).2.rig.Untouched settings raster ∧
      ((s.run ⟨prelude⟩).1 = .ok (.completed []) →
        ((∃ line ∈ prelude, line.command = .laserOn (some 1)) →
          (s.run ⟨prelude⟩).2.rig.machine.laser = true) ∧
        ∀ line : ProgramLine, line.command ≠ .stop .final →
          s.run ⟨prelude ++ [line]⟩ = (s.run ⟨prelude⟩).2.run ⟨[line]⟩) := by
  have hquiet : ∀ line ∈ prelude, line.command ≠ .stop .final := by
    intro line hline hstop
    rcases hprelude line hline with hno | hno <;> rw [hno] at hstop <;> cases hstop
  have hrun := run_unended hactive hquiet
  obtain ⟨hafter, hend⟩ := hrig.runLines hprelude []
  rw [hrun]
  refine ⟨hactive, hafter, ?_⟩
  intro hcompleted
  have hok : (s.rig.runLines [] prelude).1 = .ok (.completed []) := by
    rw [Rig.run] at hcompleted
    cases hresult : (s.rig.runLines [] prelude).1 <;> rw [hresult] at hcompleted <;> cases hcompleted
    rfl
  refine ⟨fun harming => (hend _ hok).2 (.inr harming), ?_⟩
  intro line hline
  have hsplit := s.rig.runLines_append [] prelude [line]
  rw [← Prod.eta (s.rig.runLines [] prelude), hok] at hsplit
  have hlines : ∀ line' ∈ prelude ++ [line], line'.command ≠ .stop .final := by
    simpa [or_imp, forall_and] using ⟨hquiet, hline⟩
  have hopen : ({ s with rig := (s.rig.run ⟨prelude⟩).2 } : Session (Taped D)).isActive = true := hactive
  have hrest := run_unended hopen (List.forall_mem_singleton.mpr hline)
  rw [run_unended hactive hlines, hrest]
  simp only [Rig.run, hsplit]

theorem run_shown {raster : Raster} (hactive : s.isActive = true) (hrig : s.rig.Untouched settings raster)
    {target : Point Float} (htarget : target.IsFinite) {cut : Bool}
    (hcut : cut = true → s.rig.machine.laser = true) (n : Nat) :
    let moved := s.run ⟨[⟨n, .shown target cut⟩]⟩
    let plans := moved.2.rig.driver.tape.filterMap Request.plan?
    match (Machine.switchedOn settings raster).dryRun target cut with
    | .ok plan => plans = [plan] ∧ ∀ line refusal, moved.1 ≠ .error (.execution (.plan line refusal))
    | .error refusal =>
      moved.1 = .error (.execution (.plan n refusal)) ∧
        (s.rig.move (.shown target cut)).2.driver = s.rig.driver ∧ plans = [] ∧
        moved.2.rig.driver.tape = s.rig.driver.tape ++ [.laserOff, .setMotors false] := by
  intro moved plans
  have hmoved : moved = _ := run_unended hactive (by simp [Command.shown])
  obtain ⟨hafter, herror⟩ := s.rig.run_one ⟨n, .shown target cut⟩
  have hdriver : moved.2.rig.driver = (s.rig.step ⟨n, .shown target cut⟩).2.driver := by
    rw [hmoved, ← hafter]
  have hfails (e : ExecutionError) : moved.1 = .error (.execution e) ↔
      (s.rig.step ⟨n, .shown target cut⟩).1 = .error e := by
    rw [hmoved, ← herror]
    cases (s.rig.run ⟨[⟨n, .shown target cut⟩]⟩).1 <;> simp [Except.mapError]
  have hstep := hrig.step_shown htarget hcut n
  simp only [plans, hdriver]
  cases hdry : (Machine.switchedOn settings raster).dryRun target cut with
  | ok plan =>
    rw [hdry] at hstep
    exact ⟨hstep.1, fun line refusal hno => hstep.2 line refusal ((hfails _).mp hno)⟩
  | error refusal =>
    rw [hdry] at hstep
    obtain ⟨hrefused, huncalled, htape⟩ := hstep
    refine ⟨(hfails _).mpr hrefused, huncalled, ?_, htape⟩
    rw [htape, List.filterMap_append, hrig.plans]
    rfl

/-- **The dry run shows the real plan.** Open a session on hardware with a tape, and let nothing but homings
and armings run; for a cut they come to their end, and one of them arms the laser with power 1. Then the
session answers the absolute move to any finite place as the dry run does, whether it is sent by itself or
behind the rest. The plan that the dry run reports is the one plan that the hardware is handed. A move that the
dry run refuses is refused for the same reason: it asks nothing of the hardware, which is then switched off. -/
theorem dry_run_shows_real_plan (settings : Settings) (picture : Except RasterFault Mask) (d : D)
    (s : Session (Taped D)) (hs : start settings picture ⟨d, []⟩ = .ok s) (prelude : List ProgramLine)
    (hprelude : ∀ line ∈ prelude, line.command.prepares) (target : Point Float) (htarget : target.IsFinite)
    (cut : Bool) (hcut : cut = true → (s.run ⟨prelude⟩).1 = .ok (.completed []) ∧
      ∃ line ∈ prelude, line.command = .laserOn (some 1)) (n : Nat) :
    let ready := (s.run ⟨prelude⟩).2
    let moved := ready.run ⟨[⟨n, .shown target cut⟩]⟩
    let plans := moved.2.rig.driver.tape.filterMap Request.plan?
    ((s.run ⟨prelude⟩).1 = .ok (.completed []) → s.run ⟨prelude ++ [⟨n, .shown target cut⟩]⟩ = moved) ∧
    ∃ machine, Machine.initial settings picture = .ok machine ∧
      match machine.dryRun target cut with
      | .ok plan =>
        (∀ steps, Console.plan settings picture target cut steps = { report := some (plan.report steps) }) ∧
          plans = [plan] ∧ ∀ line refusal, moved.1 ≠ .error (.execution (.plan line refusal))
      | .error refusal =>
        (∀ steps, Console.plan settings picture target cut steps = Console.failed (.plan refusal)) ∧
          moved.1 = .error (.execution (.plan n refusal)) ∧
          (ready.rig.move (.shown target cut)).2.driver = ready.rig.driver ∧ plans = [] ∧
          moved.2.rig.driver.tape = ready.rig.driver.tape ++ [.laserOff, .setMotors false] := by
  intro ready moved plans
  obtain ⟨hactive, raster, hinitial, hfresh⟩ := start_untouched hs
  obtain ⟨hready, huntouched, hcompleted⟩ := run_prepares hactive hfresh hprelude
  have harmed (h : cut = true) : ready.rig.machine.laser = true :=
    (hcompleted (hcut h).1).1 (hcut h).2
  have hshown := run_shown hready huntouched htarget harmed n
  refine ⟨fun h => (hcompleted h).2 _ (by simp [Command.shown]), _, hinitial, ?_⟩
  simp only [Console.plan, hinitial]
  cases hdry : (Machine.switchedOn settings raster).dryRun target cut with
  | ok plan =>
    rw [hdry] at hshown
    exact ⟨fun _ => rfl, hshown⟩
  | error refusal =>
    rw [hdry] at hshown
    exact ⟨fun _ => rfl, hshown⟩

/-- A cut of eight steps behind a homing, and a move past the longest plan on a board that was just switched
on. -/
theorem dry_run_of_cut_and_refused_move :
    let prelude : List ProgramLine := [⟨1, .home⟩, ⟨2, .laserOn (some 1)⟩]
    let near : Point Float := ⟨0.25, 0.5⟩
    let far : Point Float := ⟨1e9, 0⟩
    let cutting := (onTapedBoard.run ⟨prelude⟩).2.run ⟨[⟨3, .shown near true⟩]⟩
    let leaving := (onTapedBoard.run ⟨[]⟩).2.run ⟨[⟨1, .shown far false⟩]⟩
    start {} (.error .empty) ⟨⟨{ settings := {} }, false⟩, []⟩ = .ok onTapedBoard ∧
      (∀ line ∈ prelude, line.command.prepares) ∧ near.IsFinite ∧ far.IsFinite ∧
      (onTapedBoard.run ⟨prelude⟩).1 = .ok (.completed []) ∧
      (∃ line ∈ prelude, line.command = .laserOn (some 1)) ∧
      Program.parse "G28\nM3 S1\nG1 X0.25 Y0.5" = .ok ⟨prelude ++ [⟨3, .shown near true⟩]⟩ ∧
      onTapedBoard.run ⟨prelude ++ [⟨3, .shown near true⟩]⟩ = cutting ∧
      (∃ plan, plan.length = 8 ∧ plan.isLit = true ∧
        (∀ steps, Console.plan {} (.error .empty) near true steps = { report := some (plan.report steps) }) ∧
        cutting.2.rig.driver.tape.filterMap Request.plan? = [plan]) ∧
      (∃ refusal, refusal.message = "Move needs 10000000000 steps, more than the 9000 allowed" ∧
        (∀ steps, Console.plan {} (.error .empty) far false steps = Console.failed (.plan refusal)) ∧
        leaving.1 = .error (.execution (.plan 1 refusal))) ∧
      leaving.2.rig.driver.tape = [.claim, .laserOff, .setMotors false] := by
  intro prelude near far cutting leaving
  have hstart : start {} (.error .empty) ⟨⟨{ settings := {} }, false⟩, []⟩ = .ok onTapedBoard := rfl
  have hprelude : ∀ line ∈ prelude, line.command.prepares := by
    simp [prelude, Command.prepares]
  have hnear : near.IsFinite := ⟨by decide +kernel, by decide +kernel⟩
  have hfar : far.IsFinite := ⟨by decide +kernel, by decide +kernel⟩
  have hcompleted : (onTapedBoard.run ⟨prelude⟩).1 = .ok (.completed []) := rfl
  have harming : ∃ line ∈ prelude, line.command = .laserOn (some 1) :=
    ⟨⟨2, .laserOn (some 1)⟩, by simp [prelude], rfl⟩
  obtain ⟨hwhole, cutter, hcutter, hcut⟩ := dry_run_shows_real_plan {} (.error .empty) _ onTapedBoard hstart
    prelude hprelude near hnear true (fun _ => ⟨hcompleted, harming⟩) 3
  obtain ⟨-, leaver, hleaver, hleave⟩ := dry_run_shows_real_plan {} (.error .empty) _ onTapedBoard hstart
    [] (by simp) far hfar false (by simp) 1
  cases hcutter
  cases hleaver
  refine ⟨hstart, hprelude, hnear, hfar, hcompleted, harming, rfl, hwhole hcompleted, ?_, ?_⟩
  · have hlit : (((Machine.powerOn {}).dryRun near true).map fun plan => (plan.length, plan.isLit)).toOption =
        some (8, true) := by decide +kernel
    cases hdry : (Machine.powerOn {}).dryRun near true with
    | error refusal =>
      rw [hdry] at hlit
      cases hlit
    | ok plan =>
      rw [hdry] at hlit hcut
      obtain ⟨hlength, hfires⟩ := Prod.mk.inj (Option.some.inj hlit)
      exact ⟨plan, hlength, hfires, hcut.1, hcut.2.1⟩
  · have hlong : ((Machine.powerOn {}).dryRun far false).mapError Refusal.message =
        .error "Move needs 10000000000 steps, more than the 9000 allowed" := by decide +kernel
    cases hdry : (Machine.powerOn {}).dryRun far false with
    | ok plan =>
      rw [hdry] at hlong
      cases hlong
    | error refusal =>
      rw [hdry] at hlong hleave
      exact ⟨⟨refusal, Except.error.inj hlong, hleave.1, hleave.2.1⟩, hleave.2.2.2.2⟩

end Session

end Engraver
