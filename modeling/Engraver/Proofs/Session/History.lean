import Engraver.Proofs.Machine.Arming
import Engraver.Proofs.Session.Operations

/-!
# The laser in the life of a session

Whatever happens to a session, the last event that decided about the laser tells whether it is armed; and
only an armed cut puts a lit plan on record.
-/

namespace Engraver

/-- Something that happened to a session. A command that was to run answered a flow, and put plans on
record. -/
inductive Event where
  | opened
  | restarted
  | closed
  | rejected
  | ran (command : Command) (flow : Except ExecutionError Flow) (records : List Record)

namespace Event

/-- What an event decided about the laser: armed, disarmed, or nothing. -/
def decided? : Event → Option Bool
  | .ran command flow _ => command.decided? flow
  | _ => some false

def decides (e : Event) : Bool :=
  e.decided?.isSome

/-- The plans that an event put on record. -/
def records : Event → List Record
  | .ran _ _ records => records
  | _ => []

def ofTurn (t : Turn Handle) : Event :=
  .ran t.line.command t.flow (Rig.newRecords t.before t.after)

/-- Whether the last event that decided about the laser armed it. -/
def armed (history : List Event) : Bool :=
  ((history.filter decides).getLast?.bind decided?).getD false

theorem armed_concat (history : List Event) (e : Event) :
    armed (history ++ [e]) = e.decided?.getD (armed history) := by
  unfold armed
  rw [List.filter_append]
  cases h : e.decided? <;> simp [List.filter, decides, h]

theorem armed_iff (history : List Event) : armed history = true ↔
    ∃ power answer records, (history.filter decides).getLast? =
      some (.ran (.laserOn (some power)) (.ok answer) records) ∧ (power != 0) = true := by
  unfold armed
  constructor
  · intro h
    cases hlast : (history.filter decides).getLast? with
    | none => simp [hlast] at h
    | some e =>
      simp only [hlast, Option.bind_some] at h
      cases e with
      | ran command flow records =>
        rcases flow with _ | answer
        · simp [decided?, Command.decided?] at h
        · cases command with
          | laserOn power =>
            cases power with
            | none =>
              have hzero : ((0 : Float) != 0) = true := h
              exact absurd hzero (by decide +kernel)
            | some power => exact ⟨power, answer, records, rfl, h⟩
          | _ => simp [decided?, Command.decided?, Command.arming?] at h
      | _ => simp [decided?] at h
  · rintro ⟨power, answer, records, hlast, hpower⟩
    rw [hlast]
    exact hpower

/-- Only a cut puts a lit plan on record, and only while the laser is armed. -/
def FiresArmed (history : List Event) : Prop :=
  ∀ past e future, history = past ++ e :: future → (∃ record ∈ e.records, record.plan.isLit = true) →
    (∃ x y feedrate flow records, e = .ran (.move .controlled x y feedrate) flow records) ∧
      armed past = true

theorem FiresArmed.concat {history : List Event} (h : FiresArmed history) {e : Event}
    (he : (∃ record ∈ e.records, record.plan.isLit = true) →
      (∃ x y feedrate flow records, e = .ran (.move .controlled x y feedrate) flow records) ∧
        armed history = true) : FiresArmed (history ++ [e]) := by
  intro past e' future heq hlit
  rcases List.eq_nil_or_concat future with rfl | ⟨future, last, rfl⟩
  · obtain ⟨rfl, hsame⟩ := List.append_inj' heq rfl
    cases hsame
    exact he hlit
  · rw [List.concat_eq_append, ← List.cons_append, ← List.append_assoc] at heq
    obtain ⟨hinit, -⟩ := List.append_inj' heq rfl
    exact h past e' future hinit hlit

theorem FiresArmed.concat_dark {history : List Event} (h : FiresArmed history) {e : Event}
    (he : e.records = []) : FiresArmed (history ++ [e]) :=
  h.concat (by simp [he])

end Event

namespace Rig

open Event (armed FiresArmed)

/-- A run keeps its history: armed as the laser is, and lit only by armed cuts. -/
theorem turns_fireArmed (r : Rig Handle) (lines : List ProgramLine) (past : List Event)
    (ha : r.machine.laser = armed past) (hf : FiresArmed past) :
    (r.left (r.turns lines)).machine.laser = armed (past ++ (r.turns lines).map .ofTurn) ∧
      FiresArmed (past ++ (r.turns lines).map .ofTurn) := by
  induction lines generalizing r past with
  | nil => simpa [turns, left] using ⟨ha, hf⟩
  | cons line lines ih =>
    have ha' : (r.turn line).after.machine.laser = armed (past ++ [.ofTurn (r.turn line)]) := by
      rw [turn_laser, Event.armed_concat, ha]
      rfl
    have hf' : FiresArmed (past ++ [.ofTurn (r.turn line)]) := by
      apply hf.concat
      rintro ⟨record, hrecord, hlit⟩
      obtain ⟨⟨x, y, feedrate, hline⟩, hlaser⟩ := (turn_records r line).2 record hrecord hlit
      exact ⟨⟨x, y, feedrate, _, _, congrArg (Event.ran · _ _) hline⟩, ha ▸ hlaser⟩
    -- The rest of the run starts with this turn's event at the end of its history.
    rw [turns, left_cons, List.map_cons, List.append_cons]
    split
    · exact ih _ _ ha' hf'
    · simpa [left] using ⟨ha', hf'⟩

theorem turns_records (r : Rig Handle) (lines : List ProgramLine) :
    (r.left (r.turns lines)).driver.board.records =
      r.driver.board.records ++ ((r.turns lines).map .ofTurn).flatMap Event.records := by
  induction lines generalizing r with
  | nil => simp [turns, left]
  | cons line lines ih =>
    have hturn := (turn_records r line).1
    rw [turns, left_cons, List.map_cons, List.flatMap_cons, ← List.append_assoc]
    split
    · rw [ih, hturn]
      rfl
    · rw [List.map_nil, List.flatMap_nil, List.append_nil]
      exact hturn

end Rig

namespace Session

open Event (armed FiresArmed)

/-- What happens when a session is asked for an operation. -/
def events (s : Session Handle) (op : Op) : List Event :=
  match op.task with
  | .lines lines => if s.isActive then (s.rig.turns lines).map .ofTurn else []
  | .reject _ => if s.isActive then [.rejected] else []
  | .adjust => []
  | .shutDown => [.closed]
  | .restart _ => [.restarted]

/-- One thing in the life of a session: it is asked for an operation, or others change the board. -/
inductive Act where
  | ask (op : Op)
  | meanwhile (board : Board)

/-- A session and all that has happened to it. -/
structure Life where
  now : Session Handle
  past : List Event

def Life.next (life : Life) : Act → Life
  | .ask op => ⟨life.now.apply op, life.past ++ life.now.events op⟩
  | .meanwhile board => ⟨life.now.withDriver ⟨board, life.now.rig.driver.claimed⟩, life.past⟩

/-- The life of a session from its opening. -/
def Life.of (s : Session Handle) (acts : List Act) : Life :=
  acts.foldl Life.next ⟨s, [.opened]⟩

/-- The history tells whether the laser is armed, and no lit plan went on record unarmed. -/
structure Life.Sound (life : Life) : Prop where
  armed : life.now.rig.machine.laser = armed life.past
  fires : FiresArmed life.past
  closed : life.now.released = true → life.now.rig.machine.laser = false

theorem powerDown_records (s : Session Handle) :
    s.powerDown.rig.driver.board.records = s.rig.driver.board.records := by
  rcases (powerDown_cases s).2 with ⟨-, hsame⟩ | ⟨-, hdriver⟩
  · rw [hsame]
  · rw [hdriver, Handle.records_of_serve _ _ (by simp), Handle.records_of_quiet (Rig.shutDown_quiet _)]

theorem apply_records (s : Session Handle) (op : Op) :
    (s.apply op).rig.driver.board.records =
      s.rig.driver.board.records ++ (s.events op).flatMap Event.records := by
  have h := apply_does s op
  cases ht : op.task <;> simp only [ht, Does, events] at h ⊢
  case lines lines =>
    cases hs : s.isActive <;> simp only [hs, Bool.false_eq_true, if_true, if_false] at h ⊢
    · simp [h]
    · obtain ⟨terminated, h⟩ := h
      rw [h]
      exact Rig.turns_records s.rig lines
  case reject e =>
    rw [h]
    cases s.isActive
    · simp
    · simpa [leave, Event.records] using
        Handle.records_of_quiet (Rig.shutDown_quiet (s.rig.notify (.sourceRejected e)))
  case adjust =>
    obtain ⟨machine, stop, -, h⟩ := h
    simp [h, leave]
  case shutDown => simp [h, powerDown_records, Event.records]
  case restart picture =>
    rw [h, (restart_claims s picture).1, Handle.records_of_serve _ _ (by simp), powerDown_records]
    simp [Event.records]

theorem events_commands (s : Session Handle) (op : Op) (command : Command)
    (flow : Except ExecutionError Flow) (records : List Record)
    (h : .ran command flow records ∈ s.events op) :
    ∃ lines, op.task = .lines lines ∧ ∃ line ∈ lines, line.command = command := by
  unfold events at h
  cases ht : op.task <;> simp only [ht] at h
  case lines lines =>
    split at h
    · obtain ⟨t, hmem, heq⟩ := List.mem_map.mp h
      cases heq
      exact ⟨lines, rfl, t.line, (Rig.mem_turns hmem).2, rfl⟩
    · cases h
  case reject e => split at h <;> simp at h
  all_goals simp at h

theorem Life.Sound.ask {life : Life} (h : life.Sound) (op : Op) : (life.next (.ask op)).Sound := by
  obtain ⟨s, past⟩ := life
  obtain ⟨ha, hf, hc⟩ := h
  have hdoes := apply_does s op
  simp only [Life.next]
  cases ht : op.task <;> simp only [ht, Does, events] at hdoes ⊢
  case lines lines =>
    cases hs : s.isActive <;> simp only [hs, Bool.false_eq_true, if_true, if_false] at hdoes ⊢
    · rw [hdoes]
      exact ⟨by simpa using ha, by simpa using hf, hc⟩
    · obtain ⟨terminated, hdoes⟩ := hdoes
      obtain ⟨ha', hf'⟩ := Rig.turns_fireArmed s.rig lines past ha hf
      rw [hdoes]
      refine ⟨ha', hf', fun hreleased => ?_⟩
      have hopen : s.released = true := hreleased
      simp [isActive, hopen] at hs
  case reject e =>
    cases hs : s.isActive <;> simp only [hs, Bool.false_eq_true, if_true, if_false] at hdoes ⊢
    · rw [hdoes]
      exact ⟨by simpa using ha, by simpa using hf, hc⟩
    · have hlaser : (s.rig.notify (.sourceRejected e)).shutDown.machine.laser = false :=
        (Rig.shutDown_isOff _).1
      rw [hdoes]
      exact ⟨by rw [Event.armed_concat]; exact hlaser, hf.concat_dark rfl, fun _ => hlaser⟩
  case adjust =>
    obtain ⟨machine, stop, hlaser, hdoes⟩ := hdoes
    rw [hdoes, List.append_nil]
    exact ⟨hlaser.trans ha, hf, fun hreleased => hlaser.trans (hc hreleased)⟩
  case shutDown =>
    have hlaser := powerDown_machine (fun _ hm => hm.1) s hc
    rw [hdoes]
    exact ⟨by rw [Event.armed_concat]; exact hlaser, hf.concat_dark rfl, fun _ => hlaser⟩
  case restart picture =>
    have hlaser := restart_machine (fun _ hm => hm.1) s picture hc
    rw [hdoes]
    exact ⟨by rw [Event.armed_concat]; exact hlaser, hf.concat_dark rfl, fun _ => hlaser⟩

theorem Life.Sound.next {life : Life} (h : life.Sound) (act : Act) : (life.next act).Sound := by
  cases act with
  | ask op => exact h.ask op
  | meanwhile board => exact ⟨h.armed, h.fires, h.closed⟩

theorem start_sound {settings : Settings} {picture : Except RasterFault Mask} {handle : Handle}
    {s : Session Handle} (h : start settings picture handle = .ok s) (acts : List Act) :
    (Life.of s acts).Sound := by
  refine List.foldlRecOn (motive := Life.Sound) acts Life.next ?_ fun life hl act _ => hl.next act
  have hlaser : s.rig.machine.laser = false := (start_isOff h).1
  refine ⟨hlaser, ?_, fun _ => hlaser⟩
  have hempty : FiresArmed [] := by
    intro past e future heq
    simp at heq
  exact hempty.concat_dark rfl

/-- **Laser only when armed.** However a session is opened and whatever happens to it and to its board,
an event puts a plan on record that fires the laser only if it is a controlled move, and the last event
before it that decided about the laser is an M3 whose power is not zero. All that an operation puts on
record is in its events, and what runs in them are its own commands. -/
theorem laser_fires_only_when_armed (settings : Settings) (picture : Except RasterFault Mask)
    (handle : Handle) (s : Session Handle) (h : start settings picture handle = .ok s)
    (acts : List Act) :
    (∀ past e future, (Life.of s acts).past = past ++ e :: future →
      (∃ record ∈ e.records, ∃ step ∈ record.plan.steps, step.laser = true) →
      (∃ x y feedrate flow records, e = .ran (.move .controlled x y feedrate) flow records) ∧
        ∃ power answer records, (past.filter Event.decides).getLast? =
          some (.ran (.laserOn (some power)) (.ok answer) records) ∧ (power != 0) = true) ∧
    ∀ op : Op,
      ((Life.of s acts).now.apply op).rig.driver.board.records =
        (Life.of s acts).now.rig.driver.board.records ++
          ((Life.of s acts).now.events op).flatMap Event.records ∧
      ∀ command flow records, .ran command flow records ∈ (Life.of s acts).now.events op →
        ∃ lines, op.task = .lines lines ∧ ∃ line ∈ lines, line.command = command := by
  refine ⟨?_, fun op => ⟨apply_records _ op, events_commands _ op⟩⟩
  rintro past e future heq ⟨record, hrecord, hlit⟩
  obtain ⟨hcut, harmed⟩ := (start_sound h acts).fires past e future heq
    ⟨record, hrecord, List.any_eq_true.mpr hlit⟩
  exact ⟨hcut, (Event.armed_iff past).mp harmed⟩

/-- A session with default settings on a board that cuts unhomed. -/
def onLenientBoard : Session Handle where
  settings := {}
  rig :=
    { machine := .powerOn {}
      driver := ⟨{ settings := { requireHoming := false }, claimed := true }, true⟩ }

/-- An M3 and a short cut, which fires the laser. -/
theorem laser_fires_in_first_cut :
    let cut : Command := .move .controlled (some 0.1) none none
    let acts := [Act.ask (.run ⟨[⟨1, .laserOn (some 10)⟩, ⟨2, cut⟩]⟩)]
    ∃ past e, (Life.of onLenientBoard acts).past = past ++ [e] ∧
      (∃ record ∈ e.records, ∃ step ∈ record.plan.steps, step.laser = true) ∧
      ∃ power answer records, (past.filter Event.decides).getLast? =
        some (.ran (.laserOn (some power)) (.ok answer) records) ∧ (power != 0) = true := by
  intro cut acts
  have hstart : start {} (.error .empty) ⟨{ settings := { requireHoming := false } }, false⟩ =
      .ok onLenientBoard := rfl
  let armed := onLenientBoard.rig.turn ⟨1, .laserOn (some 10)⟩
  let fired := armed.after.turn ⟨2, cut⟩
  have hpast : (Life.of onLenientBoard acts).past = [.opened, .ofTurn armed] ++ .ofTurn fired :: [] := by
    have hturns : onLenientBoard.rig.turns [⟨1, .laserOn (some 10)⟩, ⟨2, cut⟩] = [armed, fired] := by
      simp only [Rig.turns, ite_self]
      rfl
    exact congrArg (fun turns => Event.opened :: turns.map Event.ofTurn) hturns
  have hlit : ∃ record ∈ (Event.ofTurn fired).records, ∃ step ∈ record.plan.steps, step.laser = true := by
    decide +kernel
  exact ⟨_, _, hpast, hlit, ((laser_fires_only_when_armed {} (.error .empty) _ _ hstart acts).1
    _ _ _ hpast hlit).2⟩

end Session

end Engraver
