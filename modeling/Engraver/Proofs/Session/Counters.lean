import Engraver.Proofs.Hardware.Reckoning
import Engraver.Proofs.Machine.Counters
import Engraver.Proofs.Session.Agreement
import Engraver.Proofs.Session.Calls
import Engraver.Proofs.Session.History

/-!
# The counters of a session

The counters are kept by the machine, the records by the board. They agree because every plan of a session in
use is put on record with the status that the session is told; what never gets that far is in its history.
-/

namespace Engraver

namespace Event

def isRefusedMove : Event → Bool
  | .ran (.move ..) (.error (.plan ..)) _ => true
  | _ => false

def isFailedHoming : Event → Bool
  | .ran .home (.error (.motion ..)) _ => true
  | _ => false

/-- What a history counts. -/
def tally (history : List Event) : MotionStats :=
  let made := history.flatMap records
  let completed := made.filter (·.status == 0)
  { moves := made.length
    steps := (completed.map (·.plan.length)).sum
    laserSteps := (completed.map (·.plan.laserSteps)).sum
    faults := made.countP (·.status != 0) + history.countP isRefusedMove + history.countP isFailedHoming
    last := made.getLast?.map (·.plan.summary) }

theorem tally_append (history more : List Event) : tally (history ++ more) = (tally history).add (tally more) := by
  simp only [tally, MotionStats.add, List.flatMap_append, List.filter_append, List.length_append,
    List.map_append, List.sum_append, List.countP_append, List.getLast?_append, Option.map_or]
  congr 1
  omega

theorem tally_of_unrecorded {e : Event} (h : e.records = []) :
    tally [e] = { faults := e.isRefusedMove.toNat + e.isFailedHoming.toNat } := by
  simp only [tally, List.flatMap_singleton, h, List.countP_singleton]
  cases e.isRefusedMove <;> cases e.isFailedHoming <;> rfl

theorem tally_of_recorded {e : Event} {record : Record} (h : e.records = [record])
    (hmove : e.isRefusedMove = false) (hhome : e.isFailedHoming = false) :
    tally [e] = .ofPlan record.plan.summary (decide (record.status = 0)) := by
  simp only [tally, List.flatMap_singleton, h, List.countP_singleton, hmove, hhome]
  by_cases hstatus : record.status = 0 <;> simp [hstatus, MotionStats.ofPlan, Plan.summary]

end Event

namespace Rig

open Event (tally)

theorem home_tally (r : Rig Handle) (line : Nat) :
    (r.perform line .home).2.stats = r.stats.add (tally
      [.ran .home (r.perform line .home).1 (newRecords r (r.perform line .home).2)]) := by
  have hquiet := perform_quiet r line .home (by simp)
  rw [newRecords_eq (by rw [Handle.records_of_quiet hquiet, List.append_nil]), Event.tally_of_unrecorded rfl,
    perform_home, concluded_stats, home_stats]
  have hspec := (home_spec r).2
  split at hspec
  · rename_i hcode
    rw [if_pos hcode, hspec.1]
    exact (MotionStats.add_new _).symm
  · rename_i hcode
    rw [if_neg hcode, hspec.1]
    rfl

theorem move_tally (r : Rig Handle) (hc : r.driver.claimed = true) (line : Nat) (kind : MoveKind)
    (x y feedrate : Option Float) :
    (r.perform line (.move kind x y feedrate)).2.stats = r.stats.add (tally
      [.ran (.move kind x y feedrate) (r.perform line (.move kind x y feedrate)).1
        (newRecords r (r.perform line (.move kind x y feedrate)).2)]) := by
  rw [perform_move, concluded_stats]
  have hconcluded := Handle.records_of_quiet (concluded_quiet (r.move ⟨kind, x, y, feedrate⟩).2 line
    ((r.move ⟨kind, x, y, feedrate⟩).1.map fun _ => ()))
  cases hplan : (r.machine.fed kind feedrate).plan kind (r.machine.delta x y) with
  | error refusal =>
    obtain ⟨hflow, hdriver, -⟩ := move_of_refused r ⟨kind, x, y, feedrate⟩ refusal hplan
    rw [hdriver] at hconcluded
    rw [newRecords_eq (hconcluded.trans (List.append_nil _).symm), hflow,
      move_stats_of_refused r ⟨kind, x, y, feedrate⟩ refusal hplan, Event.tally_of_unrecorded rfl]
    rfl
  | ok plan =>
    obtain ⟨hdriver, hflow⟩ := move_of_planned r ⟨kind, x, y, feedrate⟩ plan hplan
    obtain ⟨executed, -, hnew, -⟩ := Handle.serve_execute r.driver hc (Machine.plan_fits hplan)
    rw [hdriver, hnew] at hconcluded
    rw [newRecords_eq hconcluded, move_stats_of_planned r ⟨kind, x, y, feedrate⟩ plan hplan]
    split at hflow <;> rw [hflow.1, Event.tally_of_recorded rfl rfl rfl]

theorem perform_tally (r : Rig Handle) (hc : r.driver.claimed = true) (line : Nat) (command : Command) :
    (r.perform line command).2.stats = r.stats.add (tally
      [.ran command (r.perform line command).1 (newRecords r (r.perform line command).2)]) := by
  by_cases hhome : command = .home
  · rw [hhome]
    exact home_tally r line
  by_cases hmove : ∃ kind x y feedrate, command = .move kind x y feedrate
  · obtain ⟨kind, x, y, feedrate, rfl⟩ := hmove
    exact move_tally r hc line kind x y feedrate
  have hother : ∀ kind x y feedrate, command ≠ .move kind x y feedrate := by simpa using hmove
  have hquiet := perform_quiet r line command hother
  rw [newRecords_eq (by rw [Handle.records_of_quiet hquiet, List.append_nil]), Event.tally_of_unrecorded rfl,
    perform_stats r line command hother hhome]
  cases command with
  | move kind x y feedrate => exact absurd rfl (hother kind x y feedrate)
  | home => exact absurd rfl hhome
  | _ => exact (MotionStats.add_new _).symm

theorem turn_tally (r : Rig Handle) (hc : r.driver.claimed = true) (line : ProgramLine) :
    (r.turn line).after.stats = r.stats.add (tally [.ofTurn (r.turn line)]) := by
  cases h : r.stop.take.1 with
  | true =>
    have hquiet := shutDown_quiet (r.looked.notify (.stopRequested line.line))
    have hnew : newRecords r (r.step line).2 = [] := by
      rw [step_stopped r line h]
      exact newRecords_eq (by rw [Handle.records_of_quiet hquiet, List.append_nil]; rfl)
    simp only [turn, Event.ofTurn, hnew]
    -- The event has the line's command, but its error is neither a refusal nor a failed homing.
    rw [Event.tally_of_unrecorded rfl, step_stopped r line h, shutDown_stats]
    cases line.command <;> exact (MotionStats.add_new _).symm
  | false =>
    simp only [turn, Event.ofTurn, step_unstopped r line h]
    exact perform_tally r.looked hc line.line line.command

theorem turns_tally (r : Rig Handle) (hc : r.driver.claimed = true) (lines : List ProgramLine) :
    (r.left (r.turns lines)).stats = r.stats.add (tally ((r.turns lines).map .ofTurn)) := by
  induction lines generalizing r with
  | nil => exact (MotionStats.add_new _).symm
  | cons line lines ih =>
    have hturn := turn_tally r hc line
    have hafter : (r.turn line).after.driver.claimed = true := Handle.claimed_of_worked (step_worked r line) hc
    rw [turns, left_cons, List.map_cons, ← List.singleton_append, Event.tally_append, ← MotionStats.add_assoc,
      ← hturn]
    split
    · exact ih _ hafter
    · exact (MotionStats.add_new _).symm

end Rig

namespace Session

open Event (tally)

/-! ## One operation -/

theorem powerDown_stats {D : Type} [Driver D] (s : Session D) : s.powerDown.rig.stats = s.rig.stats := by
  unfold powerDown
  split
  · rfl
  · exact Rig.shutDown_stats s.rig

theorem restart_stats (s : Session Handle) (picture : Except RasterFault Mask) :
    (s.restart picture).2.rig.stats = s.rig.stats := by
  have hdown := powerDown_stats s
  rcases restart_ends s picture with ⟨e, -, hend⟩ | ⟨-, ⟨fault, -, hend⟩ | ⟨machine, -, hend⟩⟩ <;> rw [hend] <;>
    exact hdown

theorem apply_tally {s : Session Handle} (hk : s.KnowsClaim) (op : Op) :
    (s.apply op).rig.stats = s.rig.stats.add (tally (s.events op)) := by
  have h := apply_does s op
  cases ht : op.task <;> simp only [ht, Does, events] at h ⊢
  case lines lines =>
    cases hs : s.isActive <;> simp only [hs, Bool.false_eq_true, if_true, if_false] at h ⊢
    · rw [h]
      exact (MotionStats.add_new _).symm
    · obtain ⟨terminated, h⟩ := h
      rw [h]
      exact Rig.turns_tally s.rig (active_cases hk hs).2 lines
  case reject e =>
    rw [h]
    cases s.isActive
    · exact (MotionStats.add_new _).symm
    · exact (Rig.shutDown_stats _).trans (MotionStats.add_new _).symm
  case adjust =>
    obtain ⟨machine, stop, -, h⟩ := h
    rw [h]
    exact (MotionStats.add_new _).symm
  case shutDown =>
    rw [h, powerDown_stats]
    exact (MotionStats.add_new _).symm
  case restart picture =>
    rw [h, restart_stats]
    exact (MotionStats.add_new _).symm

/-! ## The life of a session -/

theorem start_stats {settings : Settings} {picture : Except RasterFault Mask} {handle : Handle}
    {s : Session Handle} (h : start settings picture handle = .ok s) : s.rig.stats = {} := by
  obtain ⟨-, machine, -, rfl⟩ := start_ok_iff.mp h
  rfl

/-- The session knows whether it has the claim, and has counted its history. -/
structure Life.Counted (life : Life) : Prop where
  knows : life.now.KnowsClaim
  counts : life.now.rig.stats = tally life.past

theorem Life.Counted.next {life : Life} (h : life.Counted) (act : Act) : (life.next act).Counted := by
  cases act with
  | ask op => exact ⟨h.knows.apply op, by rw [Life.next, Event.tally_append, ← h.counts, apply_tally h.knows]⟩
  | meanwhile board => exact ⟨h.knows, h.counts⟩

theorem start_counted {settings : Settings} {picture : Except RasterFault Mask} {handle : Handle}
    {s : Session Handle} (h : start settings picture handle = .ok s) (acts : List Act) :
    (Life.of s acts).Counted := by
  refine List.foldlRecOn (motive := Life.Counted) acts Life.next ?_ fun life hl act _ => hl.next act
  exact ⟨start_knows h, start_stats h⟩

/-- The calls in the life of a session, in order. -/
def lifeCalls (s : Session Handle) : List Act → List (Call Handle)
  | [] => []
  | .ask op :: acts => ⟨s, op⟩ :: (s.apply op).lifeCalls acts
  | .meanwhile board :: acts => (s.withDriver ⟨board, s.rig.driver.claimed⟩).lifeCalls acts

/-- The records that the operations of a session add to those on its board, in order. -/
def recorded (s : Session Handle) (acts : List Act) : List Record :=
  (s.lifeCalls acts).flatMap fun call => Rig.newRecords call.session.rig (call.session.apply call.op).rig

theorem Life.past_records (s : Session Handle) (past : List Event) (acts : List Act) :
    (acts.foldl Life.next ⟨s, past⟩).past.flatMap Event.records =
      past.flatMap Event.records ++ s.recorded acts := by
  induction acts generalizing s past with
  | nil => simp [recorded, lifeCalls]
  | cons act acts ih =>
    cases act with
    | ask op =>
      rw [List.foldl_cons, Life.next, ih, List.flatMap_append, recorded, recorded, lifeCalls, List.flatMap_cons,
        Rig.newRecords_eq (apply_records s op), List.append_assoc]
    | meanwhile board => exact ih _ past

/-- **The counters agree with the board.** However a session is opened, and whatever happens to it and to its
board: it counts as moves the records that its operations added to the board, as steps and laser steps those
of the plans that were completed, and shows the plan on record last, whatever its status. Its faults are the
records with another status, the moves that were refused and the homings that failed. An operation adds its
records behind those on the board. -/
theorem counters_agree_with_records (settings : Settings) (picture : Except RasterFault Mask) (handle : Handle)
    (s : Session Handle) (h : start settings picture handle = .ok s) (acts : List Act) :
    let life := Life.of s acts
    let stats := life.now.rig.stats
    let records := s.recorded acts
    let completed := records.filter fun record => record.status == 0
    stats.moves = records.length ∧
    stats.steps = (completed.map fun record => record.plan.length).sum ∧
    stats.laserSteps = (completed.map fun record => record.plan.laserSteps).sum ∧
    stats.last = records.getLast?.map (fun record => record.plan.summary) ∧
    stats.faults = records.countP (fun record => record.status != 0) +
      life.past.countP Event.isRefusedMove + life.past.countP Event.isFailedHoming ∧
    ∀ op, (life.now.apply op).rig.driver.board.records =
      life.now.rig.driver.board.records ++ Rig.newRecords life.now.rig (life.now.apply op).rig := by
  intro life stats records completed
  have hstats : stats = tally life.past := (start_counted h acts).counts
  have hrecords : life.past.flatMap Event.records = records := Life.past_records s [.opened] acts
  rw [hstats]
  unfold tally
  rw [hrecords]
  refine ⟨rfl, rfl, rfl, rfl, rfl, fun op => ?_⟩
  rw [Rig.newRecords_eq (apply_records life.now op)]
  exact apply_records life.now op

/-- A cut, a homing and a move that the board answers with codes, a move that is refused and a homing that a
stop keeps from running. -/
theorem counters_after_faults :
    let cut : Program := ⟨[⟨1, .laserOn (some 10)⟩, ⟨2, .move .controlled (some 0.2) none none⟩]⟩
    let acts : List Act := [.ask (.run cut),
      .meanwhile { settings := { requireHoming := false }, claimed := true, injected := [4, -2] },
      .ask .home, .ask (.moveTo 1 0 none), .ask (.moveTo 1e9 0 none), .ask (.restart (.error .empty)),
      .ask .requestStop, .ask .home]
    let stats := (Life.of onLenientBoard acts).now.rig.stats
    start {} (.error .empty) ⟨{ settings := { requireHoming := false } }, false⟩ = .ok onLenientBoard ∧
      stats.moves = 2 ∧ stats.steps = 2 ∧ stats.laserSteps = 2 ∧ stats.faults = 3 := by
  intro cut acts stats
  have hstart : start {} (.error .empty) ⟨{ settings := { requireHoming := false } }, false⟩ =
      .ok onLenientBoard := rfl
  obtain ⟨hmoves, hsteps, hlaser, -, hfaults, -⟩ := counters_agree_with_records {} (.error .empty) _ _ hstart acts
  refine ⟨hstart, hmoves.trans ?_, hsteps.trans ?_, hlaser.trans ?_, hfaults.trans ?_⟩ <;> decide +kernel

end Session

end Engraver
