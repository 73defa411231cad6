import Engraver.Proofs.Hardware.Bed
import Engraver.Proofs.Machine.Stays
import Engraver.Proofs.Session.Calls
import Engraver.Proofs.Session.History
import Engraver.Proofs.Session.Sharing

/-!
# Sessions keep the head inside the bed

A plan that a switch ended leaves a homed board past an edge. But the turn that gave it the plan ends with
the motors off, and with them the board's place is lost; so after every operation a homed board is in its
bed.
-/

namespace Engraver

open Driver (serve)

theorem Machine.plan_isUnit {m : Machine} {kind : MoveKind} {delta : Point Float} {plan : Plan}
    (h : m.plan kind delta = .ok plan) : plan.IsUnit :=
  Stroke.plan_isUnit h

namespace Rig

/-! ## What a turn puts on record -/

theorem concluded_place (r : Rig Handle) (line : Nat) (result : Except MotionError Unit) :
    (r.concluded line result).2.driver.board.a = r.driver.board.a ∧
      (r.concluded line result).2.driver.board.b = r.driver.board.b := by
  cases result with
  | ok answer => exact ⟨rfl, rfl⟩
  | error e =>
    have hstays := shutDown_stays (r.notify (.aborting line e))
    exact ⟨hstays.a, hstays.b⟩

/-- A record that a turn made: the turn gave the board this plan, which moved it by the steps that were
taken. -/
structure Made (r r' : Rig Handle) (record : Record) : Prop where
  claimed : r.driver.claimed = true
  isUnit : record.plan.IsUnit
  fits : record.plan.Fits
  status : record.status = (Driver.execute record.plan r.driver).1
  records : (serve r.driver (.execute record.plan)).board.records = r.driver.board.records ++ [record]
  within : record.executed ≤ record.plan.length
  moved : r.driver.board.Moved r'.driver.board record.taken

theorem perform_made {r : Rig Handle} {line : Nat} {command : Command} {record : Record}
    (h : record ∈ newRecords r (r.perform line command).2) : r.Made (r.perform line command).2 record := by
  by_cases hmove : ∃ kind x y feedrate, command = .move kind x y feedrate
  · obtain ⟨kind, x, y, feedrate, rfl⟩ := hmove
    have hunclaimed (hc : r.driver.claimed = false) : False := by
      rw [newRecords, Handle.eq_of_worked (perform_worked r line (.move kind x y feedrate)) hc,
        List.drop_length] at h
      cases h
    rw [perform_move] at h ⊢
    have hrecords := Handle.records_of_quiet
      (concluded_quiet (r.move ⟨kind, x, y, feedrate⟩).2 line
        ((r.move ⟨kind, x, y, feedrate⟩).1.map fun _ => ()))
    cases hplan : (r.machine.fed kind feedrate).plan kind (r.machine.delta x y) with
    | error refusal =>
      rw [(move_of_refused r ⟨kind, x, y, feedrate⟩ refusal hplan).2.1] at hrecords
      rw [newRecords, hrecords, List.drop_length] at h
      cases h
    | ok plan =>
      have hdriver := (move_of_planned r ⟨kind, x, y, feedrate⟩ plan hplan).1
      have hplace := concluded_place (r.move ⟨kind, x, y, feedrate⟩).2 line
        ((r.move ⟨kind, x, y, feedrate⟩).1.map fun _ => ())
      have hc : r.driver.claimed = true := by
        cases hc : r.driver.claimed with
        | true => rfl
        | false => exact (hunclaimed hc).elim
      obtain ⟨executed, hwithin, hnew, hmoved, -⟩ := Handle.serve_execute r.driver hc (Machine.plan_fits hplan)
      rw [hdriver] at hrecords hplace
      rw [newRecords_eq (hrecords.trans hnew), List.mem_singleton] at h
      subst h
      exact ⟨hc, Machine.plan_isUnit hplan, Machine.plan_fits hplan, rfl, hnew, hwithin, hplace.1.trans hmoved.1,
        hplace.2.trans hmoved.2⟩
  · have hquiet := perform_quiet r line command (by simpa using hmove)
    rw [newRecords, Handle.records_of_quiet hquiet, List.drop_length] at h
    cases h

theorem turn_made {r : Rig Handle} {line : ProgramLine} {record : Record}
    (h : record ∈ newRecords r (r.turn line).after) : r.Made (r.turn line).after record := by
  cases hs : r.stop.take.1 with
  | true =>
    rw [turn, step_stopped r line hs] at h
    have hquiet := Handle.records_of_quiet (shutDown_quiet (r.looked.notify (.stopRequested line.line)))
    rw [newRecords, hquiet] at h
    simp [looked] at h
  | false =>
    rw [turn, step_unstopped r line hs] at h ⊢
    have hlooked : record ∈ newRecords r.looked (r.looked.perform line.line line.command).2 := h
    obtain ⟨hclaimed, hunit, hfits, hstatus, hrecords, hwithin, hmoved⟩ := perform_made hlooked
    exact ⟨hclaimed, hunit, hfits, hstatus, hrecords, hwithin, hmoved⟩

/-! ## Every turn keeps the board safe -/

section Safe

variable {settings : BoardSettings} (horigin : Board.InBed { settings })
include horigin

theorem quiet_safe {h h' : Handle} (hq : Driver.Quiet h h') (hs : h.board.Safe settings) :
    h'.board.Safe settings := by
  apply hq.keeps (fun h => h.board.Safe settings) _ hs
  intro d q hq hs
  exact Handle.serve_safe horigin hs q (by rintro plan rfl; cases hq)

theorem move_safe {r : Rig Handle} (hs : r.driver.board.Safe settings) (line : Nat) (kind : MoveKind)
    (x y feedrate : Option Float) :
    (r.perform line (.move kind x y feedrate)).2.driver.board.Safe settings := by
  cases hc : r.driver.claimed with
  | false => rwa [Handle.eq_of_worked (perform_worked r line (.move kind x y feedrate)) hc]
  | true =>
    rw [perform_move]
    cases hplan : (r.machine.fed kind feedrate).plan kind (r.machine.delta x y) with
    | error refusal =>
      have hdriver := (move_of_refused r ⟨kind, x, y, feedrate⟩ refusal hplan).2.1
      exact quiet_safe horigin (concluded_quiet _ line _) (by rwa [hdriver])
    | ok plan =>
      obtain ⟨hdriver, hm⟩ := move_of_planned r ⟨kind, x, y, feedrate⟩ plan hplan
      obtain ⟨hkept, hsafe⟩ := Handle.execute_kept hs hc (Machine.plan_isUnit hplan) (Machine.plan_fits hplan)
      split at hm
      · rename_i hcode
        exact quiet_safe horigin (concluded_quiet _ line _) (by rw [hdriver]; exact hsafe hcode)
      · -- The plan was not completed, and the outputs go off.
        rw [hm.1]
        have hshut := shutDown_driver ((r.move ⟨kind, x, y, feedrate⟩).2.notify
          (.aborting line (.fault ⟨.ofCode (Driver.execute plan r.driver).1⟩)))
        simp only [Except.map, concluded, abort]
        rw [hshut, notify_driver, hdriver]
        exact Handle.shutDown_safe hkept (Handle.serve_claimed _ _ hc (by simp)).1

theorem step_safe {r : Rig Handle} (hs : r.driver.board.Safe settings) (line : ProgramLine) :
    (r.step line).2.driver.board.Safe settings := by
  cases h : r.stop.take.1 with
  | true =>
    rw [step_stopped r line h]
    exact quiet_safe horigin (shutDown_quiet (r.looked.notify (.stopRequested line.line))) hs
  | false =>
    rw [step_unstopped r line h]
    by_cases hmove : ∃ kind x y feedrate, line.command = .move kind x y feedrate
    · obtain ⟨kind, x, y, feedrate, hline⟩ := hmove
      rw [hline]
      exact move_safe (r := r.looked) horigin hs line.line kind x y feedrate
    · exact quiet_safe horigin (perform_quiet r.looked line.line line.command (by simpa using hmove)) hs

end Safe

end Rig

namespace Session

section Safe

variable {settings : BoardSettings} (horigin : Board.InBed { settings })
include horigin

theorem powerDown_safe {s : Session Handle} (hs : s.rig.driver.board.Safe settings) :
    s.powerDown.rig.driver.board.Safe settings := by
  rcases (powerDown_cases s).2 with ⟨-, hsame⟩ | ⟨-, hdriver⟩
  · rwa [hsame]
  · rw [hdriver]
    exact Handle.serve_safe horigin (Rig.quiet_safe horigin (Rig.shutDown_quiet s.rig) hs) .release (by simp)

theorem apply_safe {s : Session Handle} (hs : s.rig.driver.board.Safe settings) (op : Op) :
    (s.apply op).rig.driver.board.Safe settings := by
  have h := apply_does s op
  cases ht : op.task with
  | lines lines =>
    rw [ht] at h
    simp only [Does] at h
    split at h
    · obtain ⟨terminated, h⟩ := h
      rw [h]
      exact Rig.left_keeps (fun r : Rig Handle => r.driver.board.Safe settings)
        (fun r line hr => Rig.step_safe horigin hr line) hs lines
    · rwa [h]
  | reject e =>
    rw [ht] at h
    simp only [Does] at h
    rw [h]
    split
    · exact Rig.quiet_safe horigin (Rig.shutDown_quiet (s.rig.notify (.sourceRejected e))) hs
    · exact hs
  | adjust =>
    rw [ht] at h
    obtain ⟨machine, stop, -, h⟩ := h
    rwa [h]
  | shutDown =>
    rw [ht] at h
    rw [show s.apply op = s.powerDown from h]
    exact powerDown_safe horigin hs
  | restart picture =>
    rw [ht] at h
    rw [show s.apply op = (s.restart picture).2 from h, (restart_claims s picture).1]
    exact Handle.serve_safe horigin (powerDown_safe horigin hs) .claim (by simp)

end Safe

theorem events_records (s : Session Handle) (op : Op) :
    (s.events op).flatMap Event.records =
      (s.turns op).flatMap fun t => Rig.newRecords t.before t.after := by
  unfold events turns
  cases op.task <;> simp only [] <;> try rfl
  · split
    · rw [List.flatMap_map]
      rfl
    · rfl
  · split <;> rfl

theorem start_driver {D : Type} [Driver D] (settings : Settings) (picture : Except RasterFault Mask)
    (driver : D) :
    match start settings picture driver with
    | .ok s => s.rig.driver = serve driver .claim
    | .error failure => failure.driver = serve driver .claim ∨
        failure.driver = serve (serve driver .claim) .release := by
  rcases start_ends settings picture driver with
    ⟨e, -, hend⟩ | ⟨-, ⟨fault, -, hend⟩ | ⟨machine, -, hend⟩⟩ <;> rw [hend]
  · exact .inl rfl
  · exact .inr rfl

end Session

namespace Workshop

/-- The turns that an operation gives to the commands of its session. -/
def turns (w : Workshop) : Op → List (Turn Handle)
  | .ask i op =>
    match w.sessions[i]? with
    | some (some s) => (wire w.board s).turns op
    | _ => []
  | _ => []

theorem mem_turns {w : Workshop} {op : Op} {t : Turn Handle} (h : t ∈ w.turns op) :
    ∃ i s sop, w.sessions[i]? = some (some s) ∧ op = .ask i sop ∧ t ∈ (wire w.board s).turns sop := by
  cases op with
  | ask i sop =>
    rw [turns] at h
    split at h
    · exact ⟨i, _, sop, by assumption, rfl, h⟩
    · cases h
  | _ => cases h

section Safe

variable {settings : BoardSettings} (horigin : Board.InBed { settings })
include horigin

theorem start_safe {w : Workshop} (hw : w.board.Safe settings) (opened : Settings)
    (picture : Except RasterFault Mask) : (w.apply (.start opened picture)).board.Safe settings := by
  have hclaim : (serve (⟨w.board, false⟩ : Handle) .claim).board.Safe settings :=
    Handle.serve_safe (h := ⟨w.board, false⟩) horigin hw .claim (by simp)
  have hrelease {h : Handle} (hs : h.board.Safe settings) : (serve h .release).board.Safe settings :=
    Handle.serve_safe horigin hs .release (by simp)
  have hstart := Session.start_driver opened picture (⟨w.board, false⟩ : Handle)
  simp only [apply, Workshop.start]
  rcases hs : Session.start opened picture (⟨w.board, false⟩ : Handle) with failure | s <;>
    rw [hs] at hstart
  · change (serve failure.driver .release).board.Safe settings
    rcases hstart with hdriver | hdriver <;> rw [hdriver]
    · exact hrelease hclaim
    · exact hrelease (hrelease hclaim)
  · change s.rig.driver = _ at hstart
    change s.rig.driver.board.Safe settings
    rwa [hstart]

theorem apply_safe {w : Workshop} (hw : w.board.Safe settings) (op : Op) :
    (w.apply op).board.Safe settings := by
  cases op with
  | start opened picture => exact start_safe horigin hw opened picture
  | ask i op =>
    refine keeps_of_live (P := fun w => w.board.Safe settings) hw rfl fun s hs => ?_
    rw [apply_ask hs]
    exact Session.apply_safe (s := wire w.board s) horigin hw op
  | drop i =>
    refine keeps_of_live (P := fun w => w.board.Safe settings) hw rfl fun s hs => ?_
    rw [apply_drop hs]
    exact Handle.serve_safe horigin (Session.powerDown_safe (s := wire w.board s) horigin hw) .release (by simp)
  | intervene x => cases x <;> exact hw.congr rfl rfl rfl id

theorem after_safe (ops : List Op) : (after settings ops).board.Safe settings := by
  refine List.foldlRecOn (motive := fun w => w.board.Safe settings) ops apply ?_ fun w hw op _ =>
    apply_safe horigin hw op
  exact ⟨⟨rfl, fun _ => horigin.near⟩, fun _ => horigin⟩

end Safe

theorem apply_records (w : Workshop) (op : Op) :
    (w.apply op).board.records =
      w.board.records ++ (w.turns op).flatMap fun t => Rig.newRecords t.before t.after := by
  have live (i : Nat) (hi : op.session = some i) (hlive : ∀ s, w.sessions[i]? = some (some s) →
      (w.apply op).board.records =
        w.board.records ++ (w.turns op).flatMap fun t => Rig.newRecords t.before t.after)
      (hturns : (∀ s, w.sessions[i]? ≠ some (some s)) → w.turns op = []) :
      (w.apply op).board.records =
        w.board.records ++ (w.turns op).flatMap fun t => Rig.newRecords t.before t.after := by
    by_cases hs : ∃ s, w.sessions[i]? = some (some s)
    · obtain ⟨s, hs⟩ := hs
      exact hlive s hs
    · rw [apply_missing (not_exists.mp hs) hi, hturns (not_exists.mp hs), List.flatMap_nil, List.append_nil]
  cases op with
  | ask i op =>
    refine live i rfl (fun s hs => ?_) fun hs => ?_
    · rw [apply_ask hs, turns, hs, ← Session.events_records]
      exact Session.apply_records (wire w.board s) op
    · rw [turns]
      split
      · rename_i s h
        exact absurd h (hs s)
      · rfl
  | drop i =>
    refine live i rfl (fun s hs => ?_) fun _ => rfl
    rw [apply_drop hs, Handle.records_of_serve _ _ (by simp), Session.powerDown_records]
    simp [turns, wire, Session.withDriver, Rig.withDriver]
  | intervene x => cases x <;> simp [apply, Board.intervene, turns]
  | start opened picture =>
    have hrecords (h : Handle) (q : Request) (hq : ∀ plan, q ≠ .execute plan) :=
      Handle.records_of_serve h q hq
    have hstart := Session.start_driver opened picture (⟨w.board, false⟩ : Handle)
    have hrelease (h : Handle) : (Driver.release h).board.records = h.board.records :=
      hrecords h .release (by simp)
    simp only [apply, Workshop.start, turns, List.flatMap_nil, List.append_nil]
    rcases hs : Session.start opened picture (⟨w.board, false⟩ : Handle) with failure | s <;>
      rw [hs] at hstart
    · rcases hstart with hdriver | hdriver <;> simp only [hdriver, hrelease]
      · exact hrecords _ .claim (by simp)
      · rw [hrecords _ .release (by simp)]
        exact hrecords _ .claim (by simp)
    · change s.rig.driver = _ at hstart
      change s.rig.driver.board.records = _
      rw [hstart]
      exact hrecords _ .claim (by simp)

/-- **Homed means inside the bed.** Let the settings be checked. Whatever is done to the sessions on a board
and to the board itself, after every operation a homed board presses no switch at an edge. If it must be
homed to move, it never stands more than the last step past an edge; and of every plan on record, all of
which were given to it in a turn of some session, each place that a step was taken from is clear. -/
theorem homed_board_is_inside_bed (settings : Settings) (hsettings : settings.check = .ok ())
    (ops : List Op) :
    ((after settings.board ops).board.homed = true → (after settings.board ops).board.InBed) ∧
    (settings.board.requireHoming = true →
      (after settings.board ops).board.NearBed ∧
      ∀ op : Op,
        ((after settings.board ops).apply op).board.records = (after settings.board ops).board.records ++
          ((after settings.board ops).turns op).flatMap (fun t => Rig.newRecords t.before t.after) ∧
        ∀ t ∈ (after settings.board ops).turns op, ∀ record ∈ Rig.newRecords t.before t.after,
          record.executed ≤ record.plan.length ∧
          (∀ step ∈ record.plan.steps, step.a.natAbs ≤ 1 ∧ step.b.natAbs ≤ 1) ∧
          t.before.driver.board.Moved t.after.driver.board record.taken ∧
          ∀ k < record.executed,
            (t.before.driver.board.movedBy ⟨record.plan.steps.take k⟩).switches.isClear = true) := by
  have horigin := Settings.board_origin hsettings
  have hsafe := after_safe horigin ops
  refine ⟨hsafe.homed, fun hr => ⟨hsafe.near hr, fun op => ⟨apply_records _ op, ?_⟩⟩⟩
  intro t ht record hrecord
  obtain ⟨i, s, sop, -, -, hturns⟩ := mem_turns ht
  obtain ⟨lines, -, -, hrig⟩ := Session.mem_turns hturns
  have hbefore := (Rig.turns_keep (fun r : Rig Handle => r.driver.board.Safe settings.board)
    (fun r line hr => Rig.step_safe horigin hr line) (r := (wire _ s).rig) hsafe hrig).1
  have hafter : t.after = (t.before.turn t.line).after := congrArg Turn.after (Rig.mem_turns hrig).1
  rw [hafter] at hrecord ⊢
  have hmade := Rig.turn_made hrecord
  exact ⟨hmade.within, hmade.isUnit, hmade.moved, fun k hk =>
    Handle.execute_clear hbefore hr hmade.claimed record hmade.fits hmade.records hmade.status hk⟩

/-- A move past the left edge takes two of its five steps, the second of which presses a switch. -/
theorem homed_board_after_overrun :
    let settings : Settings := {}
    let ops : List Op := [.start settings (.error .empty), .ask 0 .home]
    let past : Op := .ask 0 (.moveTo (-0.5) 0 none)
    let w := after settings.board ops
    settings.check = .ok () ∧ w.board.homed = true ∧ w.board.InBed ∧
      (after settings.board (ops ++ [past])).board.NearBed ∧
      (after settings.board (ops ++ [past])).board.homed = false ∧
      ∃ t ∈ w.turns past, ∃ record ∈ Rig.newRecords t.before t.after, record.executed = 2 ∧
        record.plan.length = 5 ∧
        ∀ k < 2, (t.before.driver.board.movedBy ⟨record.plan.steps.take k⟩).switches.isClear = true := by
  intro settings ops past w
  have hcheck : settings.check = .ok () := by
    have hok : settings.check.isOk = true := by decide +kernel
    cases h : settings.check with
    | error fault => simp [h, Except.isOk, Except.toBool] at hok
    | ok _ => rfl
  have hhomed : w.board.homed = true := rfl
  have hw := homed_board_is_inside_bed settings hcheck ops
  have hpast := homed_board_is_inside_bed settings hcheck (ops ++ [past])
  obtain ⟨t, ht, record, hrecord, hexecuted, hlength⟩ : ∃ t ∈ w.turns past,
      ∃ record ∈ Rig.newRecords t.before t.after, record.executed = 2 ∧ record.plan.length = 5 := by
    decide +kernel
  have hclear := ((hw.2 rfl).2 past).2 t ht record hrecord
  exact ⟨hcheck, hhomed, hw.1 hhomed, (hpast.2 rfl).1, by decide +kernel, t, ht, record, hrecord, hexecuted,
    hlength, fun k hk => hclear.2.2.2 k (by omega)⟩

end Workshop

end Engraver
