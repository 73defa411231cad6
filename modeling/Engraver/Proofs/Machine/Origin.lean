import Engraver.Proofs.Machine.Artwork

/-!
# Relative programs and the origin

With relative coordinates a move goes by what its command says, wherever the machine believes to be. So two
rigs that differ in their place only do the same, as long as no command goes back to absolute coordinates;
what they do not share is their place, what they say of it, and the picture under the head.
-/

namespace Engraver

/-! ## What tells of places -/

/-- The answer with the origin for its place. -/
def Response.unplaced : Response → Response
  | position _ => position ⟨0, 0⟩
  | answer => answer

def Flow.unplaced : Flow → Flow
  | next answer => next (answer.map Response.unplaced)
  | terminate => terminate

section Flows

variable {flow : Except ExecutionError Flow}

theorem Flow.eq_error {e : ExecutionError}
    (h : flow.map unplaced = (.error e : Except ExecutionError Flow).map unplaced) : flow = .error e := by
  rcases flow with e' | _ | _ <;> simp_all [Except.map, unplaced]

theorem Flow.eq_terminate (h : flow.map unplaced = (.ok terminate : Except ExecutionError Flow).map unplaced) :
    flow = .ok terminate := by
  rcases flow with e | _ | _ <;> simp_all [Except.map, unplaced]

theorem Flow.eq_next {answer : Option Response}
    (h : flow.map unplaced = (.ok (next answer) : Except ExecutionError Flow).map unplaced) :
    ∃ answer', flow = .ok (next answer') ∧
      answer'.map Response.unplaced = answer.map Response.unplaced := by
  rcases flow with e | _ | _ <;> simp_all [Except.map, unplaced]

end Flows

def Outcome.unplaced : Outcome → Outcome
  | completed answers => completed (answers.map Response.unplaced)
  | terminated line answers => terminated line (answers.map Response.unplaced)

/-- The notice without its place; none if it is about a place only. -/
def Notice.unplaced? : Notice → Option Notice
  | outsideBed .. => none
  | moveRefused _ refusal => some (moveRefused ⟨0, 0⟩ refusal)
  | moveAborted _ status => some (moveAborted ⟨0, 0⟩ status)
  | notice => some notice

/-! ## Rigs in different places -/

namespace Machine

def movedTo (m : Machine) (place : Point Float) : Machine :=
  { m with position := place }

theorem plan_movedTo (m : Machine) (h : m.IsDark) (place : Point Float) (kind : MoveKind)
    (delta : Point Float) : (m.movedTo place).plan kind delta = m.plan kind delta := by
  rw [← plan_of_dark m h, ← plan_of_dark (m.movedTo place) h]
  exact Stroke.plan_unlit_congr (m.stroke kind delta) m.belts place (m.stroke kind delta).beam

theorem delta_movedTo (m : Machine) (h : m.mode = .relative) (place : Point Float) (x y : Option Float) :
    (m.movedTo place).delta x y = m.delta x y := by
  unfold delta movedTo
  simp only [h]

theorem plan_delta_movedTo (m : Machine) (hmode : m.mode = .relative) (hdark : m.IsDark)
    (place : Point Float) (kind : MoveKind) (x y : Option Float) :
    (m.movedTo place).plan kind ((m.movedTo place).delta x y) = m.plan kind (m.delta x y) := by
  rw [delta_movedTo m hmode, plan_movedTo m hdark]

theorem withFeedrate_movedTo (m : Machine) (place : Point Float) (kind : MoveKind) (feedrate : Float) :
    (m.movedTo place).withFeedrate kind feedrate = (m.withFeedrate kind feedrate).movedTo place := by
  have hcuts : (m.movedTo place).cuts kind = m.cuts kind := rfl
  unfold withFeedrate
  rw [hcuts]
  split
  · rfl
  · split <;> rfl

theorem fed_isDark (m : Machine) (h : m.IsDark) (kind : MoveKind) (feedrate : Option Float) :
    (m.fed kind feedrate).IsDark := by
  obtain ⟨speed, hfed⟩ := m.fed_frame kind feedrate
  rw [hfed, withSpeed]
  split <;> exact h

end Machine

namespace Rig

section Places

variable {D : Type}

/-- The rig somewhere else, with another log. -/
def movedTo (r : Rig D) (place : Point Float) (log : List Notice) : Rig D :=
  { r with machine := r.machine.movedTo place, log }

/-- The same rig but for its place and the places in its log. -/
def SameButPlace (r s : Rig D) : Prop :=
  ∃ place log, s = r.movedTo place log ∧
    log.filterMap Notice.unplaced? = r.log.filterMap Notice.unplaced?

namespace SameButPlace

variable {r s : Rig D}

theorem notify (h : r.SameButPlace s) {notice notice' : Notice}
    (hn : notice'.unplaced? = notice.unplaced?) : (r.notify notice).SameButPlace (s.notify notice') := by
  obtain ⟨place, log, rfl, hlog⟩ := h
  refine ⟨place, log ++ [notice'], rfl, ?_⟩
  simp [Rig.notify, List.filterMap_cons, hlog, hn]

theorem notifyIf (h : r.SameButPlace s) (applies : Bool) (notice : Notice) :
    (r.notifyIf applies notice).SameButPlace (s.notifyIf applies notice) := by
  unfold Rig.notifyIf
  split
  · exact h.notify rfl
  · exact h

theorem notifyIf_outsideBed (h : r.SameButPlace s) (applies applies' : Bool)
    (target target' bed bed' : Point Float) :
    (r.notifyIf applies (.outsideBed target bed)).SameButPlace
      (s.notifyIf applies' (.outsideBed target' bed')) := by
  obtain ⟨place, log, rfl, hlog⟩ := h
  unfold Rig.notifyIf
  split <;> split <;>
    exact ⟨place, _, rfl, by simp [Rig.notify, movedTo, List.filterMap_cons, Notice.unplaced?, hlog]⟩

theorem fault (h : r.SameButPlace s) {notice notice' : Notice}
    (hn : notice'.unplaced? = notice.unplaced?) : (r.fault notice).SameButPlace (s.fault notice') := by
  obtain ⟨place, log, rfl, hlog⟩ := h
  exact notify (r := { r with stats := { r.stats with faults := r.stats.faults + 1 } })
    ⟨place, log, rfl, hlog⟩ hn

theorem refused (h : r.SameButPlace s) (target target' : Point Float) (refusal : Refusal Float) :
    (r.fault (.moveRefused target refusal)).SameButPlace (s.fault (.moveRefused target' refusal)) :=
  h.fault rfl

theorem ready (h : r.SameButPlace s) (m : Move) : (r.ready m).SameButPlace (s.ready m) := by
  have hfed : (r.applyFeedrate m.kind m.feedrate).SameButPlace (s.applyFeedrate m.kind m.feedrate) := by
    obtain ⟨place, log, rfl, hlog⟩ := h
    unfold applyFeedrate
    split
    · exact ⟨place, log, rfl, hlog⟩
    · rename_i feedrate _
      have hmachine := r.machine.withFeedrate_movedTo place m.kind feedrate
      refine notifyIf (r := { r with machine := r.machine.withFeedrate m.kind feedrate }) ?_ _ _
      exact ⟨place, log, congrArg (fun machine => ({ r with machine, log } : Rig D)) hmachine, hlog⟩
  exact hfed.notifyIf_outsideBed _ _ _ _ _ _

theorem settle (h : r.SameButPlace s) (target target' : Point Float) (summary : Summary) (status : Status) :
    (s.settle target' summary status).1 = (r.settle target summary status).1 ∧
      (r.settle target summary status).2.SameButPlace (s.settle target' summary status).2 := by
  obtain ⟨place, log, rfl, hlog⟩ := h
  unfold Rig.settle
  dsimp only [movedTo]
  split
  · exact ⟨rfl, target', log, rfl, hlog⟩
  · exact ⟨rfl, fault (r := { r with stats := { r.stats with moves := r.stats.moves + 1, last := some summary } })
      ⟨place, log, rfl, hlog⟩ rfl⟩

variable [Driver D]

theorem setMotors (h : r.SameButPlace s) (on : Bool) : (r.setMotors on).SameButPlace (s.setMotors on) := by
  obtain ⟨place, log, rfl, hlog⟩ := h
  exact notifyIf (r := { r with machine := r.machine.setMotors on, driver := (Driver.setMotors on r.driver).2 })
    ⟨place, log, rfl, hlog⟩ _ _

theorem laserOff (h : r.SameButPlace s) : r.laserOff.SameButPlace s.laserOff := by
  obtain ⟨place, log, rfl, hlog⟩ := h
  exact ⟨place, log, rfl, hlog⟩

theorem shutDown (h : r.SameButPlace s) : r.shutDown.SameButPlace s.shutDown :=
  h.laserOff.setMotors false

theorem home (h : r.SameButPlace s) : s.home.1 = r.home.1 ∧ r.home.2.SameButPlace s.home.2 := by
  obtain ⟨place, log, hs, hlog⟩ := h.setMotors true
  unfold Rig.home
  rw [hs]
  generalize r.setMotors true = on at hlog ⊢
  dsimp only [movedTo]
  split
  · exact ⟨rfl, ⟨0, 0⟩, log, rfl, hlog⟩
  · exact ⟨rfl, fault (r := { on with driver := (Driver.home on.driver).2 }) ⟨place, log, rfl, hlog⟩ rfl⟩

theorem move (h : r.SameButPlace s) (hmode : r.machine.mode = .relative) (hdark : r.machine.IsDark)
    (m : Move) : (s.move m).1 = (r.move m).1 ∧ (r.move m).2.SameButPlace (s.move m).2 := by
  obtain ⟨place, log, hs, hlog⟩ := h.ready m
  have hmode' : (r.ready m).machine.mode = .relative := by
    rw [ready_machine]
    exact (fed_fittings r.machine m.kind m.feedrate place).mode.trans hmode
  have hdark' : (r.ready m).machine.IsDark := by
    rw [ready_machine]
    exact r.machine.fed_isDark hdark m.kind m.feedrate
  have hdriver : s.driver = r.driver := by
    rw [← s.ready_driver m, ← r.ready_driver m, hs]
    rfl
  rw [move_eq, move_eq, hs, hdriver]
  generalize r.ready m = ready at hmode' hdark' hlog ⊢
  have hplan : (ready.movedTo place log).machine.plan m.kind ((ready.movedTo place log).machine.delta m.x m.y) =
      ready.machine.plan m.kind (ready.machine.delta m.x m.y) :=
    ready.machine.plan_delta_movedTo hmode' hdark' place m.kind m.x m.y
  rw [hplan]
  cases ready.machine.plan m.kind (ready.machine.delta m.x m.y) with
  | error refusal =>
    dsimp only
    exact ⟨rfl, refused (r := ready) ⟨place, log, rfl, hlog⟩ _ _ refusal⟩
  | ok plan =>
    exact settle (r := { ready with driver := (Driver.execute plan r.driver).2 })
      ⟨place, log, rfl, hlog⟩ _ _ _ _

theorem concluded (h : r.SameButPlace s) (line : Nat) (result : Except MotionError Unit) :
    (s.concluded line result).1 = (r.concluded line result).1 ∧
      (r.concluded line result).2.SameButPlace (s.concluded line result).2 := by
  cases result with
  | error e => exact ⟨rfl, (h.notify rfl).shutDown⟩
  | ok done => exact ⟨rfl, h⟩

theorem perform (h : r.SameButPlace s) (hmode : r.machine.mode = .relative) (hdark : r.machine.IsDark)
    (line : Nat) (command : Command) :
    (s.perform line command).1.map Flow.unplaced = (r.perform line command).1.map Flow.unplaced ∧
      (r.perform line command).2.SameButPlace (s.perform line command).2 := by
  cases command with
  | move kind x y feedrate =>
    obtain ⟨hresult, hafter⟩ := h.move hmode hdark ⟨kind, x, y, feedrate⟩
    rw [perform_move, perform_move, hresult]
    obtain ⟨hflow, hend⟩ := hafter.concluded line ((r.move ⟨kind, x, y, feedrate⟩).1.map fun _ => ())
    exact ⟨congrArg _ hflow, hend⟩
  | home =>
    obtain ⟨hresult, hafter⟩ := h.home
    rw [perform_home, perform_home, hresult]
    obtain ⟨hflow, hend⟩ := hafter.concluded line (r.home.1.mapError .fault)
    exact ⟨congrArg _ hflow, hend⟩
  | stop kind => cases kind <;> exact ⟨rfl, h.shutDown⟩
  | laserOff => exact ⟨rfl, h.laserOff⟩
  | enableMotors on => exact ⟨rfl, h.setMotors on⟩
  | laserOn power =>
    obtain ⟨place, log, rfl, hlog⟩ := h
    refine ⟨rfl, ?_⟩
    simp only [Rig.perform, armLaser]
    split <;> exact ⟨place, log, rfl, hlog⟩
  | setStepCal value =>
    obtain ⟨place, log, rfl, hlog⟩ := h
    have hsame : r.SameButPlace (r.movedTo place log) := ⟨place, log, rfl, hlog⟩
    refine ⟨rfl, ?_⟩
    simp only [Rig.perform, setStepCal]
    split
    · exact hsame.notify rfl
    · split
      · exact ⟨place, log, rfl, hlog⟩
      · exact hsame.notify rfl
  | setPosition x y =>
    obtain ⟨place, log, rfl, hlog⟩ := h
    exact ⟨rfl, ⟨x, y⟩, log, rfl, hlog⟩
  | _ =>
    obtain ⟨place, log, rfl, hlog⟩ := h
    exact ⟨rfl, place, log, rfl, hlog⟩

theorem step (h : r.SameButPlace s) (hmode : r.machine.mode = .relative) (hdark : r.machine.IsDark)
    (line : ProgramLine) :
    (s.step line).1.map Flow.unplaced = (r.step line).1.map Flow.unplaced ∧
      (r.step line).2.SameButPlace (s.step line).2 := by
  have hstop : s.stop = r.stop := by
    obtain ⟨place, log, rfl, hlog⟩ := h
    rfl
  have hlooked : r.looked.SameButPlace s.looked := by
    obtain ⟨place, log, rfl, hlog⟩ := h
    exact ⟨place, log, rfl, hlog⟩
  cases hs : r.stop.take.1 with
  | true =>
    rw [step_stopped r line hs, step_stopped s line (hstop ▸ hs)]
    exact ⟨rfl, (hlooked.notify rfl).shutDown⟩
  | false =>
    rw [step_unstopped r line hs, step_unstopped s line (hstop ▸ hs)]
    exact hlooked.perform hmode hdark line.line line.command

end SameButPlace

variable [Driver D]

theorem step_relative (r : Rig D) (hmode : r.machine.mode = .relative) (line : ProgramLine)
    (hline : line.command ≠ .setMode .absolute) : (r.step line).2.machine.mode = .relative := by
  cases hs : r.stop.take.1 with
  | true =>
    rw [step_stopped r line hs, shutDown_machine]
    exact hmode
  | false =>
    rw [step_unstopped r line hs, (perform_fittings r.looked line.line line.command).mode]
    cases hcommand : line.command with
    | setMode mode => cases mode <;> simp_all [Command.mode?]
    | _ => exact hmode

theorem SameButPlace.runLines {r s : Rig D} (h : r.SameButPlace s) (hmode : r.machine.mode = .relative)
    (lines : List ProgramLine) (hlines : ∀ line ∈ lines, line.command ≠ .setMode .absolute)
    (hdark : ∀ t ∈ r.turns lines, t.before.machine.IsDark) (answers answers' : List Response)
    (hanswers : answers'.map Response.unplaced = answers.map Response.unplaced) :
    (s.runLines answers' lines).1.map Outcome.unplaced = (r.runLines answers lines).1.map Outcome.unplaced ∧
      (r.runLines answers lines).2.SameButPlace (s.runLines answers' lines).2 := by
  -- The induction is on the lines: relative mode and dark laser last, so both rigs make the same plans.
  induction lines generalizing r s answers answers' with
  | nil => exact ⟨by simp [Rig.runLines, Except.map, Outcome.unplaced, hanswers], h⟩
  | cons line lines ih =>
    obtain ⟨hflow, hafter⟩ := h.step hmode (hdark _ List.mem_cons_self) line
    have hmode' := r.step_relative hmode line (hlines line List.mem_cons_self)
    rcases hs : s.step line with ⟨flow', after'⟩
    rcases hr : r.step line with ⟨flow, after⟩
    rw [hs, hr] at hflow hafter
    rw [hr] at hmode'
    simp only [turns, turn, hr] at hdark
    simp only [Rig.runLines, hs, hr]
    rcases flow with e | ⟨answer⟩ | _
    · obtain rfl := Flow.eq_error hflow
      exact ⟨rfl, hafter⟩
    · obtain ⟨answer', rfl, hanswer⟩ := Flow.eq_next hflow
      apply ih hafter hmode' (fun line h => hlines line (List.mem_cons_of_mem _ h))
      · intro t ht
        exact hdark t (List.mem_cons_of_mem _ ht)
      · rw [List.map_append, List.map_append, hanswers, ← Option.toList_map, hanswer, Option.toList_map]
    · obtain rfl := Flow.eq_terminate hflow
      exact ⟨by simp [Except.map, Outcome.unplaced, hanswers], hafter⟩

theorem SameButPlace.run {r s : Rig D} (h : r.SameButPlace s) (hmode : r.machine.mode = .relative)
    (p : Program) (hlines : ∀ line ∈ p.lines, line.command ≠ .setMode .absolute)
    (hdark : ∀ t ∈ r.turns p.lines, t.before.machine.IsDark) :
    (s.run p).1.map Outcome.unplaced = (r.run p).1.map Outcome.unplaced ∧
      (r.run p).2.SameButPlace (s.run p).2 :=
  h.runLines hmode p.lines hlines hdark [] [] rfl

end Places

/-! ## Relative programs -/

theorem unlit_turns_dark {r : Rig Handle} {lines : List ProgramLine} {t : Turn Handle}
    (h : t ∈ r.unlit.turns lines) : t.before.machine.IsDark := by
  rw [turns_view unlit_step] at h
  obtain ⟨lit, -, rfl⟩ := List.mem_map.mp h
  exact .inr rfl

/-- **Relative programs are independent of the origin.** A program that never goes back to absolute
coordinates runs alike from any two places, on the same board in the same state: it ends the same way, at the
same line or with the same error, and the answers differ in places only. Apart from the laser flags the
records of the board are the same, plan by plan and step by step, with the same number of steps taken and the
same codes, and so is the rest of the board; the counters differ in the laser's steps only and the state in
the place only. If the laser is disarmed at every turn, board and counters are all the same. -/
theorem relative_program_ignores_origin (r : Rig Handle) (place : Point Float) (p : Program)
    (hmode : r.machine.mode = .relative) (hlines : ∀ line ∈ p.lines, line.command ≠ .setMode .absolute) :
    let s := r.movedTo place r.log
    (s.run p).1.map Outcome.unplaced = (r.run p).1.map Outcome.unplaced ∧
    (∃ place', (s.run p).2.machine = (r.run p).2.machine.movedTo place') ∧
    (s.run p).2.driver.unlit = (r.run p).2.driver.unlit ∧
    (s.run p).2.stats.unlit = (r.run p).2.stats.unlit ∧
    (s.run p).2.stop = (r.run p).2.stop ∧
    (s.run p).2.log.filterMap Notice.unplaced? = (r.run p).2.log.filterMap Notice.unplaced? ∧
    ((∀ t ∈ r.turns p.lines, t.before.machine.laser = false) →
      (s.run p).2.driver = (r.run p).2.driver ∧ (s.run p).2.stats = (r.run p).2.stats) := by
  intro s
  have hunlit : r.unlit.SameButPlace s.unlit := ⟨place, r.log, rfl, rfl⟩
  obtain ⟨hend, hviews⟩ := hunlit.run hmode p hlines fun t ht => unlit_turns_dark ht
  rw [unlit_run, unlit_run] at hend hviews
  obtain ⟨place', log, hview, hlog⟩ := hviews
  refine ⟨hend, ⟨place', ?_⟩, congrArg Rig.driver hview, congrArg Rig.stats hview,
    (congrArg Rig.stop hview :), ?_, ?_⟩
  · have hmachine : (s.run p).2.machine.unlit = ((r.run p).2.machine.movedTo place').unlit :=
      congrArg Rig.machine hview
    have hraster : (s.run p).2.machine.raster = (r.run p).2.machine.raster :=
      (run_picture s p).1.trans (run_picture r p).1.symm
    have hthreshold : (s.run p).2.machine.threshold = (r.run p).2.machine.threshold :=
      (run_picture s p).2.trans (run_picture r p).2.symm
    rw [Machine.eq_showing_of_unlit hmachine, hraster, hthreshold]
    rfl
  · have hlog' : (s.run p).2.log = log := congrArg Rig.log hview
    rw [hlog']
    exact hlog
  · intro hlaser
    have hsame : r.SameButPlace s := ⟨place, r.log, rfl, rfl⟩
    obtain ⟨-, place', log, hleft, -⟩ := hsame.run hmode p hlines fun t ht => .inl (hlaser t ht)
    rw [hleft]
    exact ⟨rfl, rfl⟩

/-- Two moves around a set position, from the origin and from a place past the edge of the bed. -/
theorem relative_moves_from_past_the_edge :
    let r : Rig Handle :=
      { machine := { Machine.powerOn {} with mode := .relative }
        driver := ⟨{ settings := {}, claimed := true, homed := true }, true⟩ }
    let s := r.movedTo ⟨2000, 0⟩ r.log
    let p : Program :=
      ⟨[⟨1, .move .controlled (some 1) none none⟩, ⟨2, .setPosition 7 8⟩,
        ⟨3, .move .rapid none (some 1) none⟩, ⟨4, .queryPosition⟩]⟩
    (r.run p).2.driver.board.records.length = 2 ∧ (s.run p).2.driver = (r.run p).2.driver ∧
      (s.run p).1.map Outcome.unplaced = (r.run p).1.map Outcome.unplaced := by
  intro r s p
  have hlaser : ∀ t ∈ r.turns p.lines, t.before.machine.laser = false := by decide +kernel
  have hsame := relative_program_ignores_origin r ⟨2000, 0⟩ p rfl (by simp [p])
  exact ⟨by decide +kernel, (hsame.2.2.2.2.2.2 hlaser).1, hsame.1⟩

end Rig

end Engraver
