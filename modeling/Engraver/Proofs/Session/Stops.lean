import Engraver.Proofs.Machine.Queries
import Engraver.Proofs.Session.Calls

/-!
# Stop requests

A request waits until the next command is about to start, whichever call that is in, and keeps it from
starting. The history of requests and turns tells which commands start: those before which no request
waits.
-/

namespace Engraver

/-! ## One turn -/

namespace Turn

variable {D : Type} [Driver D]

/-- A stop request was used up in the command's place: nothing is done but to switch all off. -/
structure Stopped (t : Turn D) : Prop where
  flow : t.flow = .error (.stopRequested t.line.line)
  after : t.after = (t.before.looked.notify (.stopRequested t.line.line)).shutDown
  off : t.after.machine.IsOff
  driver : t.after.driver = Driver.serve (Driver.serve t.before.driver .laserOff) (.setMotors false)
  used : t.after.stop.pending = false

structure Started (t : Turn D) : Prop where
  performed : (t.flow, t.after) = t.before.looked.perform t.line.line t.line.command
  used : t.after.stop.pending = false

def stopLine? (t : Turn D) : Option Nat :=
  t.error?.bind ExecutionError.stopLine?

theorem Stopped.stopLine {t : Turn D} (h : t.Stopped) : t.stopLine? = some t.line.line := by
  simp [stopLine?, error?, h.flow, ExecutionError.stopLine?]

theorem Started.stopLine {t : Turn D} (h : t.Started) : t.stopLine? = none := by
  unfold stopLine? error?
  split
  · rename_i e he
    obtain ⟨cause, rfl⟩ := Rig.perform_error _ _ _ e ((congrArg Prod.fst h.performed).symm.trans he)
    cases cause <;> rfl
  · rfl

omit [Driver D] in
theorem stopLine_of_goesOn {t : Turn D} (h : t.goesOn = true) : t.stopLine? = none := by
  cases he : t.error? with
  | none => simp [stopLine?, he]
  | some e => simp [goesOn_of_error he] at h

end Turn

namespace Rig

variable {D : Type} [Driver D]

theorem turn_heeds (r : Rig D) (line : ProgramLine) :
    if r.stop.take.1 then (r.turn line).Stopped else (r.turn line).Started := by
  cases h : r.stop.take.1 with
  | true =>
    rw [if_pos rfl, turn, step_stopped r line h]
    exact ⟨rfl, rfl, shutDown_isOff _, shutDown_driver _, by simp [looked, StopLine.take]⟩
  | false =>
    rw [if_neg (by simp), turn, step_unstopped r line h]
    exact ⟨rfl, by simp [perform_stop, looked, StopLine.take]⟩

theorem getLast_turns {r : Rig D} {lines : List ProgramLine} {t : Turn D} (h : t ∈ r.turns lines)
    (hstop : t.goesOn = false) : (r.turns lines).getLast? = some t := by
  induction lines generalizing r with
  | nil => simp [turns] at h
  | cons line lines ih =>
    rw [turns, List.mem_cons] at h
    rw [turns, List.getLast?_cons]
    rcases h with rfl | h
    · simp [hstop]
    · split at h
      · simp [*, ih h]
      · simp at h

end Rig

/-! ## Histories -/

/-- Something that matters to stop requests: one came, or a command was to start. -/
inductive Beat (D : Type) where
  | request
  | turn (t : Turn D)

namespace Beat

variable {D : Type}

/-- Whether a request waits after these beats; `waiting` tells whether one waited before them. -/
def waits (waiting : Bool) : List (Beat D) → Bool
  | [] => waiting
  | .request :: beats => waits true beats
  | .turn _ :: beats => waits false beats

/-- The lines of the commands before which a request waits. -/
def stopLines (waiting : Bool) : List (Beat D) → List Nat
  | [] => []
  | .request :: beats => stopLines true beats
  | .turn t :: beats => (if waiting then [t.line.line] else []) ++ stopLines false beats

theorem waits_append (waiting : Bool) (beats later : List (Beat D)) :
    waits waiting (beats ++ later) = waits (waits waiting beats) later := by
  induction beats generalizing waiting with
  | nil => rfl
  | cons beat beats ih => cases beat <;> exact ih _

theorem stopLines_append (waiting : Bool) (beats later : List (Beat D)) :
    stopLines waiting (beats ++ later) =
      stopLines waiting beats ++ stopLines (waits waiting beats) later := by
  induction beats generalizing waiting with
  | nil => rfl
  | cons beat beats ih => cases beat <;> simp [stopLines, waits, ih]

variable [Driver D]

/-- The commands before which a request waits are stopped, and the others start. -/
def Heeded (waiting : Bool) : List (Beat D) → Prop
  | [] => True
  | .request :: beats => Heeded true beats
  | .turn t :: beats => (if waiting then t.Stopped else t.Started) ∧ Heeded false beats

theorem Heeded.append {waiting : Bool} {beats later : List (Beat D)} (h : Heeded waiting beats)
    (h' : Heeded (waits waiting beats) later) : Heeded waiting (beats ++ later) := by
  induction beats generalizing waiting with
  | nil => exact h'
  | cons beat beats ih =>
    cases beat with
    | request =>
      rw [Heeded] at h
      exact ih h h'
    | turn t => exact ⟨h.1, ih h.2 h'⟩

theorem Heeded.turn {waiting : Bool} {beats past future : List (Beat D)} {t : Turn D}
    (h : Heeded waiting beats) (heq : beats = past ++ .turn t :: future) :
    if waits waiting past then t.Stopped else t.Started := by
  subst heq
  induction past generalizing waiting with
  | nil => exact h.1
  | cons beat past ih =>
    cases beat with
    | request =>
      rw [Heeded.eq_def] at h
      exact ih h
    | turn t' => exact ih h.2

end Beat

variable {D : Type} [Driver D]

/-- A turn, and before it the request that came since the look before it, if one came. -/
def Turn.beats (t : Turn D) : List (Beat D) :=
  (if t.before.stop.coming.headD false then [.request] else []) ++ [.turn t]

/-- What beats tell of the stop requests: `pending` is the flag after them, and `line` the line at which the
call that they are of was stopped. -/
structure Beat.Tell (waiting : Bool) (beats : List (Beat D)) (pending : Bool) (line : Option Nat) : Prop where
  heeded : Heeded waiting beats
  flag : pending = waits waiting beats
  stopped : line.toList = stopLines waiting beats

namespace Rig

open Beat (Tell Heeded waits stopLines)

theorem turn_tells (r : Rig D) (line : ProgramLine) :
    Tell r.stop.pending (r.turn line).beats (r.turn line).after.stop.pending (r.turn line).stopLine? := by
  have h := r.turn_heeds line
  have hbeats : (r.turn line).beats =
      (if r.stop.coming.headD false then [.request] else []) ++ [.turn (r.turn line)] := rfl
  rw [hbeats]
  simp only [StopLine.take] at h
  cases hp : r.stop.pending <;> cases hc : r.stop.coming.headD false <;>
    simp only [hp, hc, Bool.or_false, Bool.or_true, Bool.false_eq_true, if_true, if_false] at h ⊢ <;>
    exact ⟨⟨h, trivial⟩, h.used, by rw [h.stopLine]; rfl⟩

theorem turns_tell (r : Rig D) (lines : List ProgramLine) :
    Tell r.stop.pending ((r.turns lines).flatMap Turn.beats) (r.left (r.turns lines)).stop.pending
      ((r.turns lines).getLast?.bind Turn.stopLine?) := by
  -- The induction is on the lines; only the last turn can have been stopped.
  induction lines generalizing r with
  | nil => exact ⟨trivial, rfl, rfl⟩
  | cons line lines ih =>
    obtain ⟨hheeded, hflag, hstopped⟩ := r.turn_tells line
    rw [turns, left_cons, List.flatMap_cons]
    split
    · rename_i hgo
      obtain ⟨hheeded', hflag', hstopped'⟩ := ih (r.turn line).after
      have hlast : (r.turn line :: (r.turn line).after.turns lines).getLast?.bind Turn.stopLine? =
          ((r.turn line).after.turns lines).getLast?.bind Turn.stopLine? := by
        rw [List.getLast?_cons]
        cases ((r.turn line).after.turns lines).getLast? with
        | none => exact Turn.stopLine_of_goesOn hgo
        | some t => rfl
      rw [hflag] at hheeded' hflag' hstopped'
      refine ⟨hheeded.append hheeded', by rw [Beat.waits_append, hflag'], ?_⟩
      rw [hlast, Beat.stopLines_append, ← hstopped, Turn.stopLine_of_goesOn hgo, hstopped']
      rfl
    · simpa using ⟨hheeded, hflag, hstopped⟩

end Rig

namespace Session

open Beat (Tell Heeded waits stopLines)

/-! ## One call -/

def beats (s : Session D) : Op → List (Beat D)
  | .requestStop => [.request]
  | op => (s.turns op).flatMap Turn.beats

/-- The line at which a call was stopped, as its answer tells it. -/
def Call.stopLine? (call : Call D) : Option Nat :=
  (call.session.failure? call.op).bind ExecutionError.stopLine?

theorem stopLine_eq (call : Call D) :
    call.stopLine? = (call.session.turns call.op).getLast?.bind Turn.stopLine? := by
  rw [Call.stopLine?, failure_eq]
  exact Option.bind_assoc _ _ _

theorem powerDown_stop (s : Session D) : s.powerDown.rig.stop = s.rig.stop := by
  unfold powerDown
  split <;> simp

theorem restart_stop (s : Session D) (picture : Except RasterFault Mask) :
    (s.restart picture).2.rig.stop = s.rig.stop := by
  rw [← powerDown_stop s]
  rcases restart_ends s picture with ⟨e, -, hend⟩ | ⟨-, ⟨fault, -, hend⟩ | ⟨machine, -, hend⟩⟩ <;> rw [hend]

theorem apply_stop (s : Session D) (op : Op) (hturns : s.turns op = []) (hstop : op ≠ .requestStop)
    (hcoming : ∀ coming, op ≠ .expectStops coming) : (s.apply op).rig.stop = s.rig.stop := by
  have hdoes := apply_does s op
  cases ht : op.task with
  | lines lines => rw [apply_rig s ht, hturns]; rfl
  | reject e =>
    simp only [ht, Does] at hdoes
    rw [hdoes]
    split <;> simp [leave]
  | shutDown =>
    rw [ht] at hdoes
    rw [show s.apply op = s.powerDown from hdoes, powerDown_stop]
  | restart picture =>
    rw [ht] at hdoes
    rw [show s.apply op = (s.restart picture).2 from hdoes, restart_stop]
  | adjust =>
    have hsource (source : String) : Task.ofSource source ≠ .adjust := by
      unfold Task.ofSource
      split <;> simp
    cases op with
    | runSource source => exact absurd ht (hsource source)
    | runFile file =>
      cases file with
      | error e => rfl
      | ok source => exact absurd ht (hsource source)
    | setRaster mask dpmm =>
      simp only [apply, setRaster]
      split <;> rfl
    | setAbsolute => rfl
    | requestStop => exact absurd rfl hstop
    | expectStops coming => exact absurd rfl (hcoming coming)
    | _ => cases ht

theorem apply_tells (s : Session D) (op : Op) :
    Tell s.rig.stop.pending (s.beats op) (s.apply op).rig.stop.pending (Call.stopLine? ⟨s, op⟩) := by
  rw [stopLine_eq]
  have idle (hturns : s.turns op = []) (hstop : op ≠ .requestStop)
      (hflag : (s.apply op).rig.stop.pending = s.rig.stop.pending) :
      Tell s.rig.stop.pending (s.beats op) (s.apply op).rig.stop.pending
        ((s.turns op).getLast?.bind Turn.stopLine?) := by
    have hbeats : s.beats op = [] := by
      unfold beats
      split
      · exact absurd rfl hstop
      · rw [hturns]; rfl
    rw [hbeats, hflag, hturns]
    exact ⟨trivial, rfl, rfl⟩
  cases hop : op.task with
  | lines lines =>
    cases hs : s.isActive with
    | false =>
      have hturns := turns_idle hs op
      exact idle hturns (by rintro rfl; cases hop) (by rw [apply_rig s hop, hturns]; rfl)
    | true =>
      have hbeats : s.beats op = (s.turns op).flatMap Turn.beats := by
        unfold beats
        split
        · cases hop
        · rfl
      rw [hbeats, apply_rig s hop, turns_lines hop hs]
      exact s.rig.turns_tell lines
  | _ =>
    have hturns : s.turns op = [] := by simp [turns, hop]
    by_cases hstop : op = .requestStop
    · subst hstop
      exact ⟨trivial, rfl, rfl⟩
    · refine idle hturns hstop ?_
      by_cases hcoming : ∃ coming, op = .expectStops coming
      · obtain ⟨coming, rfl⟩ := hcoming
        rfl
      · rw [apply_stop s op hturns hstop (not_exists.mp hcoming)]

/-! ## One call after the other -/

def history (s : Session D) (ops : List Op) : List (Beat D) :=
  (s.calls ops).flatMap fun call => call.session.beats call.op

theorem history_tells (s : Session D) (ops : List Op) :
    Heeded s.rig.stop.pending (s.history ops) ∧
      (s.after ops).rig.stop.pending = waits s.rig.stop.pending (s.history ops) ∧
      (s.calls ops).filterMap Call.stopLine? = stopLines s.rig.stop.pending (s.history ops) := by
  induction ops generalizing s with
  | nil => exact ⟨trivial, rfl, rfl⟩
  | cons op ops ih =>
    obtain ⟨hheeded, hflag, hstopped⟩ := s.apply_tells op
    obtain ⟨hheeded', hflag', hstopped'⟩ := ih (s.apply op)
    have hhistory : s.history (op :: ops) = s.beats op ++ (s.apply op).history ops := rfl
    rw [hflag] at hheeded' hflag' hstopped'
    rw [hhistory, Beat.waits_append, Beat.stopLines_append, ← hstopped, ← hstopped', calls,
      List.filterMap_cons]
    refine ⟨hheeded.append hheeded', hflag', ?_⟩
    cases Call.stopLine? ⟨s, op⟩ <;> rfl

theorem stopLine_iff (call : Call D) (line : Nat) : call.stopLine? = some line ↔
    ∃ t ∈ call.session.turns call.op, t.Stopped ∧ t.line.line = line := by
  rw [stopLine_eq]
  constructor
  · intro h
    obtain ⟨t, ht, hline⟩ := Option.bind_eq_some_iff.mp h
    have hmem := List.mem_of_getLast? ht
    obtain ⟨lines, -, -, hturn⟩ := mem_turns hmem
    have hheeds := t.before.turn_heeds t.line
    rw [← (Rig.mem_turns hturn).1] at hheeds
    split at hheeds
    · exact ⟨t, hmem, hheeds, by simpa [hheeds.stopLine] using hline⟩
    · simp [hheeds.stopLine] at hline
  · rintro ⟨t, hmem, hstopped, rfl⟩
    obtain ⟨lines, hop, hs, hturn⟩ := mem_turns hmem
    have hends : t.goesOn = false := by simp [Turn.goesOn, hstopped.flow]
    rw [turns_lines hop hs, Rig.getLast_turns hturn hends]
    exact hstopped.stopLine

theorem execute_line {s : Session D} {op : Op} (hop : op = .home ∨ ∃ x y feedrate, op = .moveTo x y feedrate)
    {t : Turn D} (ht : t ∈ s.turns op) : t.line.line = 0 := by
  obtain ⟨lines, htask, -, hmem⟩ := mem_turns ht
  have hline := (Rig.mem_turns hmem).2
  rcases hop with rfl | ⟨x, y, feedrate, rfl⟩ <;> cases htask <;>
    rw [List.mem_singleton.mp hline]

theorem runJob_stopped {s : Session D} {job : Job} {line : Nat}
    (h : Call.stopLine? ⟨s, .runJob job⟩ = some line) : (s.runJob job).1 = .ok .stopped := by
  obtain ⟨e, hfailure, hline⟩ := Option.bind_eq_some_iff.mp h
  have hs := ((runJob_failure s job e).mp hfailure).1
  obtain ⟨hanswer, -, result, htells, -⟩ := runJob_active s hs job
  rw [hanswer]
  cases e with
  | stopRequested line =>
    have herror : (s.runJob job).2.2.error = some (.stopRequested line) := by
      dsimp only [failure?] at hfailure
      split at hfailure
      · rename_i hrun
        rw [hrun]
        exact hfailure
      · cases hfailure
    cases result with
    | ok outcome => simp [htells.2.2] at herror
    | error e =>
      rw [htells.1]
      rw [htells.2] at herror
      cases herror
      rfl
  | _ => cases hline

/-- **Stop requests.** Whatever is done to a session and whenever stop requests come, between calls or
while commands run: a command before which a request waits is not carried out, all is switched off, and the
request is used up; every other command starts. The calls that fail by a stop request are, one for one and
with their lines, those of the first commands after requests; the line is 0 for `home` and `moveTo`, and a
job is stopped. A program without commands, and a call that is refused, leave the requests alone. -/
theorem stop_requests_abort_one_call_each (s : Session D) (ops : List Op) :
    (∀ past t future, s.history ops = past ++ .turn t :: future →
      if waits s.rig.stop.pending past then t.Stopped else t.Started) ∧
    (s.calls ops).filterMap Call.stopLine? = stopLines s.rig.stop.pending (s.history ops) ∧
    (s.after ops).rig.stop.pending = waits s.rig.stop.pending (s.history ops) ∧
    ∀ call ∈ s.calls ops,
      (∀ line, call.stopLine? = some line ↔
        ∃ t ∈ call.session.turns call.op, t.Stopped ∧ t.line.line = line) ∧
      (call.op = .home ∨ (∃ x y feedrate, call.op = .moveTo x y feedrate) →
        ∀ t ∈ call.session.turns call.op, t.line.line = 0) ∧
      (∀ job line, call.op = .runJob job → call.stopLine? = some line →
        (call.session.runJob job).1 = .ok .stopped) ∧
      ∀ lines, call.op.task = .lines lines → call.session.isActive = false ∨ lines = [] →
        call.session.turns call.op = [] ∧
          (call.session.apply call.op).rig.stop = call.session.rig.stop := by
  obtain ⟨hheeded, hflag, hstopped⟩ := s.history_tells ops
  refine ⟨fun past t future heq => hheeded.turn heq, hstopped, hflag, ?_⟩
  rintro ⟨found, op⟩ -
  refine ⟨stopLine_iff ⟨found, op⟩, fun hop t ht => execute_line hop ht, ?_, ?_⟩
  · rintro job line rfl hline
    exact runJob_stopped hline
  · intro lines hop hidle
    have hturns : found.turns op = [] := by
      rcases hidle with hs | rfl
      · exact turns_idle hs op
      · simp [turns, hop, Rig.turns]
    exact ⟨hturns, by rw [apply_rig found hop, hturns]; rfl⟩

/-- Two requests and an empty program before a homing, and a request during the first command of a job. -/
theorem stop_requests_abort_homing_and_job :
    let s : Session Handle :=
      { settings := {}, rig := { machine := .powerOn {}, driver := ⟨{ settings := {}, claimed := true }, true⟩ } }
    let job : Job := .new "queries" ⟨[⟨1, .queryPosition⟩, ⟨2, .queryVersion⟩]⟩
    let early : List Op := [.requestStop, .requestStop, .run ⟨[]⟩]
    let ops := early ++ [.home, .expectStops [false, true], .runJob job]
    let homing := (s.after early).rig.turn ⟨0, .home⟩
    homing.Stopped ∧ (s.calls ops).filterMap Call.stopLine? = [0, 2] ∧
      (s.after ops).rig.stop.pending = false := by
  intro s job early ops homing
  obtain ⟨hturn, hstopped, hflag, -⟩ := stop_requests_abort_one_call_each s ops
  refine ⟨?_, hstopped, hflag⟩
  exact hturn (s.history early) homing
    (((s.after early).apply .home).history [.expectStops [false, true], .runJob job]) rfl

end Session

end Engraver
