import Engraver.Proofs.Gcode.RoundTrip
import Engraver.Proofs.Gcode.Sources
import Engraver.Proofs.Machine.Sequence
import Engraver.Proofs.Session.Rejection

/-!
# Motions asked for directly

Homing and rapid moves can be asked for directly, and they can be written down and run as a source. Both do the
same; only where errors and the log name the line, it is line 0 in the first case and line 1 in the second.
-/

namespace Engraver

/-! ## A command as a source -/

namespace Text

theorem linesFrom_unbroken {text : List Char} (h : ∀ c ∈ text, c ≠ '\n') (line : List Char) :
    linesFrom line text = linesFrom (line ++ text) [] := by
  induction text generalizing line with
  | nil => rw [List.append_nil]
  | cons c cs ih =>
    have hcs : ∀ c ∈ cs, c ≠ '\n' := fun c hc => h c (List.mem_cons_of_mem _ hc)
    rw [show linesFrom line (c :: cs) = linesFrom (line ++ [c]) cs from if_neg (h c List.mem_cons_self),
      ih hcs, List.append_assoc, List.singleton_append]

theorem lines_eq_singleton {text : List Char} (hne : text ≠ []) (h : ∀ c ∈ text, c ≠ '\n') :
    lines text = [text] := by
  rw [lines, linesFrom_unbroken h, List.nil_append]
  exact if_neg (by simpa using hne)

end Text

namespace Program

theorem parse_toText {c : Command} (h : c.IsFinite) : parse c.toText = .ok ⟨[⟨1, c⟩]⟩ := by
  obtain ⟨entry, params, hwritten⟩ := c.exists_writtenAs
  have hplain := Line.writtenAs_plain hwritten h
  have hne : c.toText.toList ≠ [] := by
    rw [hwritten.text, Text.spaced]
    exact List.append_ne_nil_of_left_ne_nil (hplain _ List.mem_cons_self).1.nonempty _
  have hfeed : ∀ char ∈ c.toText.toList, char ≠ '\n' := by
    rw [hwritten.text]
    rintro char hchar rfl
    rcases Text.mem_spaced hchar with hspace | ⟨w, hw, hmem⟩
    · cases hspace
    · cases (hplain w hw).1.solid _ hmem
  have hitems : items c.toText = [.ok ⟨1, c⟩] := by
    simp [items, Text.lines_eq_singleton hne hfeed, itemsFrom, item?, Line.parse_toText h 1]
  rw [parse, hitems]
  rfl

end Program

/-! ## The same at another line -/

def ExecutionError.atLine (line : Nat) : ExecutionError → ExecutionError
  | .motion _ fault => .motion line fault
  | .plan _ refusal => .plan line refusal
  | .stopRequested _ => .stopRequested line

def Notice.atLine (line : Nat) : Notice → Notice
  | .stopRequested _ => .stopRequested line
  | .aborting _ cause => .aborting line cause
  | notice => notice

/-- The same error at another line, if a line was run. -/
def SessionError.atLine (line : Nat) : SessionError → SessionError
  | .execution cause => .execution (cause.atLine line)
  | cause => cause

/-- Commands that drive the head. -/
inductive Command.IsMotion : Command → Prop where
  | move (kind : MoveKind) (x y feedrate : Option Float) : IsMotion (.move kind x y feedrate)
  | home : IsMotion .home

namespace Rig

variable {D : Type}

/-- `r'` is the rig `r`, except that some of what `log` gained there is about `line` instead. -/
structure LikeAtLine (line : Nat) (log : List Notice) (r r' : Rig D) : Prop where
  same : r' = { r with log := r'.log }
  gained : ∃ earlier later, log <+: earlier ∧ r.log = earlier ++ later ∧
    r'.log = earlier ++ later.map (Notice.atLine line)

theorem LikeAtLine.of_grown {r : Rig D} {log : List Notice} (h : log <+: r.log) (line : Nat) :
    LikeAtLine line log r r :=
  ⟨rfl, r.log, [], h, (List.append_nil _).symm, (List.append_nil _).symm⟩

theorem LikeAtLine.weaken {line : Nat} {log before : List Notice} {r r' : Rig D} (h : LikeAtLine line log r r')
    (hbefore : before <+: log) : LikeAtLine line before r r' := by
  obtain ⟨earlier, later, hlog, hr, hr'⟩ := h.gained
  exact ⟨h.same, earlier, later, hbefore.trans hlog, hr, hr'⟩

theorem eq_carry (r : Rig D) : r = ({ r with log := [] } : Rig D).carry {} r.log := by
  simp [carry, MotionStats.add]

theorem log_grows {f : Rig D → Rig D} (h : ∀ r log, f (carry r {} log) = (f r).carry {} log) (r : Rig D) :
    r.log <+: (f r).log := by
  have hcarried := h { r with log := [] } r.log
  rw [← eq_carry r] at hcarried
  rw [hcarried]
  exact List.prefix_append _ _

variable [Driver D]

theorem home_log (r : Rig D) : r.log <+: r.home.2.log :=
  log_grows (f := fun r => r.home.2) (fun r log => congrArg Prod.snd ((carry_view {} log).home r)) r

theorem move_log (r : Rig D) (m : Move) : r.log <+: (r.move m).2.log :=
  log_grows (f := fun r => (r.move m).2) (fun r log => congrArg Prod.snd ((carry_view {} log).move r m)) r

theorem shutDown_likeAtLine (r : Rig D) (notice : Notice) (line : Nat) :
    LikeAtLine line r.log (r.notify notice).shutDown (r.notify (notice.atLine line)).shutDown := by
  rcases h : Driver.setMotors false (Driver.laserOff r.driver) with ⟨heeded, driver⟩
  simp only [shutDown, setMotors, notifyIf, laserOff, notify, h]
  cases heeded
  · exact ⟨rfl, r.log, [notice, .motorsIgnored], List.prefix_rfl, by simp, by simp [Notice.atLine]⟩
  · exact ⟨rfl, r.log, [notice], List.prefix_rfl, by simp, by simp⟩

theorem concluded_likeAtLine (r : Rig D) (result : Except MotionError Unit) (j k : Nat) :
    (r.concluded k result).1 = (r.concluded j result).1.mapError (ExecutionError.atLine k) ∧
      LikeAtLine k r.log (r.concluded j result).2 (r.concluded k result).2 := by
  cases result with
  | ok done => exact ⟨rfl, .of_grown List.prefix_rfl k⟩
  | error e =>
    refine ⟨?_, r.shutDown_likeAtLine (.aborting j e) k⟩
    cases e <;> rfl

theorem concluded_goesOn (r : Rig D) (line : Nat) (result : Except MotionError Unit) {flow : Flow}
    (h : (r.concluded line result).1 = .ok flow) : flow = .next none := by
  cases result with
  | ok done => exact (Except.ok.inj h).symm
  | error e => cases h

theorem exists_concluded {c : Command} (hc : c.IsMotion) (r : Rig D) :
    ∃ (after : Rig D) (result : Except MotionError Unit), r.log <+: after.log ∧
      ∀ line, r.perform line c = after.concluded line result := by
  cases hc with
  | move kind x y feedrate => exact ⟨_, _, r.move_log ⟨kind, x, y, feedrate⟩, fun line => r.perform_move line ..⟩
  | home => exact ⟨_, _, r.home_log, r.perform_home⟩

/-- A motion does the same at every line, whether it completes, fails or is stopped. -/
theorem step_motion {c : Command} (hc : c.IsMotion) (r : Rig D) (j k : Nat) :
    (r.step ⟨k, c⟩).1 = (r.step ⟨j, c⟩).1.mapError (ExecutionError.atLine k) ∧
      LikeAtLine k r.log (r.step ⟨j, c⟩).2 (r.step ⟨k, c⟩).2 ∧
      ∀ flow, (r.step ⟨j, c⟩).1 = .ok flow → flow = .next none := by
  cases hs : r.stop.take.1 with
  | true =>
    rw [step_stopped r ⟨j, c⟩ hs, step_stopped r ⟨k, c⟩ hs]
    exact ⟨rfl, r.looked.shutDown_likeAtLine (.stopRequested j) k, by rintro flow ⟨⟩⟩
  | false =>
    rw [step_unstopped r ⟨j, c⟩ hs, step_unstopped r ⟨k, c⟩ hs]
    obtain ⟨after, result, hlog, hperform⟩ := exists_concluded hc r.looked
    rw [hperform j, hperform k]
    obtain ⟨hanswer, hlike⟩ := after.concluded_likeAtLine result j k
    exact ⟨hanswer, hlike.weaken hlog, fun flow => after.concluded_goesOn j result⟩

end Rig

namespace Session

variable {D : Type} [Driver D]

/-- A motion that was asked for directly in a session ended as it does as a source. -/
structure SameMotion (s : Session D) (direct : Except SessionError Unit × Session D)
    (source : Except SessionError Outcome × Session D) : Prop where
  /-- Both succeed, or both fail for the same reason, in the source at line 1. -/
  answer : source.1 = (direct.1.map fun _ => .completed []).mapError (SessionError.atLine 1)
  /-- The machine, the hardware, the counters and the stop requests are the same, and so is the log but for the
  line. -/
  rig : Rig.LikeAtLine 1 s.rig.log direct.2.rig source.2.rig
  /-- The rest of the session is the same. -/
  rest : source.2 = { direct.2 with rig := source.2.rig }
  /-- No line is named but line 0. -/
  line : ∀ e, direct.1 = .error (.execution e) → e.line = 0

theorem execute_sameMotion (s : Session D) {c : Command} (hc : c.IsMotion) (hfinite : c.IsFinite) :
    s.SameMotion (s.execute c) (s.runSource c.toText) := by
  cases hs : s.isActive with
  | false =>
    simp only [execute, runSource, hs, Bool.not_false, if_true]
    exact ⟨rfl, .of_grown List.prefix_rfl 1, rfl, by rintro e ⟨⟩⟩
  | true =>
    obtain ⟨hanswer, hlike, hnext⟩ := Rig.step_motion hc s.rig 0 1
    have hline := Rig.step_error_line s.rig ⟨0, c⟩
    rw [runSource_parsed hs (Program.parse_toText hfinite)]
    simp only [execute, run, hs, Bool.not_true, Bool.false_eq_true, if_false, Rig.run, Rig.runLines]
    rcases hdirect : s.rig.step ⟨0, c⟩ with ⟨e | flow, after⟩ <;>
      rcases hsource : s.rig.step ⟨1, c⟩ with ⟨e' | flow', after'⟩ <;>
      rw [hdirect, hsource] at hanswer hlike
    · cases hanswer
      exact ⟨rfl, hlike, rfl, fun e he => hline e (by rw [hdirect]; cases he; rfl)⟩
    · cases hanswer
    · cases hanswer
    · cases hanswer
      obtain rfl := hnext flow (by rw [hdirect])
      exact ⟨rfl, hlike, by simp [Outcome.isTerminated], by rintro e ⟨⟩⟩

/-- **A motion asked for directly is a source of one line.** A rapid move to finite coordinates, with a finite
feedrate or none, does in every session and to any hardware what its text does as a source; so does homing.
Whatever the motion meets (a stop request, a refusal, a fault of the hardware, a session that has ended), the
machine, the hardware, the counters and the stop requests are left the same, and both succeed or fail for the
same reason. The error and the log name line 0 for the one and line 1 for the other. -/
theorem direct_motion_agrees_with_source (s : Session D) (x y : Float) (feedrate : Option Float)
    (hx : x.isFinite = true) (hy : y.isFinite = true) (hfeedrate : ∀ f ∈ feedrate, f.isFinite = true) :
    s.SameMotion (s.moveTo x y feedrate)
        (s.runSource (Command.move .rapid (some x) (some y) feedrate).toText) ∧
      s.SameMotion s.home (s.runSource "G28") := by
  refine ⟨s.execute_sameMotion (.move ..) ?_, s.execute_sameMotion .home ?_⟩
  · simpa [Command.IsFinite, Command.numbers, hx, hy] using hfeedrate
  · simp [Command.IsFinite, Command.numbers]

/-- A move far off the bed, with a feedrate that is ignored, is refused on either way. -/
theorem refused_move_agrees_with_source :
    let s : Session Handle := { settings := {}, rig := Rig.onNewBoard }
    let source := "G0 X1000 Y-0.5 F0"
    s.SameMotion (s.moveTo 1000 (-0.5) (some 0)) (s.runSource source) ∧
      (s.moveTo 1000 (-0.5) (some 0)).1.mapError SessionError.message =
        .error "Execution error: Line 0: Move needs 10005 steps, more than the 9000 allowed" ∧
      (s.runSource source).2.rig.log.map Notice.message =
        ["Ignoring non-positive feedrate F0", "Move target X:1000.00 Y:-0.50 is outside the bed (200 x 250)",
          "Move to X:1000.000 Y:-0.500 refused: Move needs 10005 steps, more than the 9000 allowed",
          "Aborting at line 1: Move needs 10005 steps, more than the 9000 allowed"] := by
  intro s source
  have hfinite : ∀ x ∈ [(1000 : Float), -0.5, 0], x.isFinite = true := by decide +kernel
  have htext : (Command.move .rapid (some 1000) (some (-0.5)) (some 0)).toText = source := by decide +kernel
  have hsame := (direct_motion_agrees_with_source s 1000 (-0.5) (some 0) (hfinite _ (by simp))
    (hfinite _ (by simp)) (by rintro f ⟨⟩; exact hfinite _ (by simp))).1
  rw [htext] at hsame
  exact ⟨hsame, by decide +kernel, by decide +kernel⟩

end Session

end Engraver
