import Engraver.Proofs.Gcode.Sources
import Engraver.Proofs.Hardware.Bed
import Engraver.Proofs.Machine.Speeds
import Engraver.Proofs.Session.Lasting

/-!
# Sessions keep calibration and speeds

On checked settings no session ever loses its calibration or a speed, whatever it runs and whatever its
hardware answers. So every plan that its commands hand to the hardware takes its time.
-/

namespace Engraver

theorem Machine.isUsable_lasts : Machine.Lasting (fun settings => settings.check = .ok ()) IsUsable where
  powerOn settings h := by
    obtain ⟨hcal, h⟩ := Settings.bind_ok h
    obtain ⟨hcut, h⟩ := Settings.bind_ok h
    obtain ⟨htravel, -⟩ := Settings.bind_ok h
    exact ⟨Settings.positive_ok hcal, Settings.positive_ok hcut, Settings.positive_ok htravel⟩
  adjust _ _ _ h := ⟨h.stepCal, h.cutSpeed, h.travelSpeed⟩
  off _ h := ⟨h.stepCal, h.cutSpeed, h.travelSpeed⟩

namespace Session

/-- An operation whose numbers are finite, as they are in all sources. -/
def Op.IsFinite : Op → Prop
  | .run program => program.IsFinite
  | .runJob job => job.program.IsFinite
  | .moveTo x y feedrate => (Command.move .rapid (some x) (some y) feedrate).IsFinite
  | _ => True

theorem Op.IsFinite.lines {op : Op} (h : op.IsFinite) {lines : List ProgramLine}
    (hop : op.task = .lines lines) : ∀ line ∈ lines, line.command.IsFinite := by
  have hsource (text : String) (ht : Task.ofSource text = .lines lines) :
      ∀ line ∈ lines, line.command.IsFinite := by
    unfold Task.ofSource at ht
    cases hp : Program.parse text with
    | error e => simp [hp] at ht
    | ok program =>
      rw [hp] at ht
      cases ht
      exact Program.isFinite_of_parse hp
  cases op with
  | run program => cases hop; exact h
  | runJob job => cases hop; exact h
  | runSource text => exact hsource text hop
  | runFile file =>
    cases file with
    | error e => cases hop
    | ok text => exact hsource text hop
  | moveTo x y feedrate =>
    cases hop
    intro line hline
    rwa [List.mem_singleton.mp hline]
  | home => cases hop; simp [Command.IsFinite, Command.numbers]
  | _ => cases hop

variable {D : Type} [Driver D] {s : Session D} {ops : List Op} {t : Turn D}

theorem allTurns_finite (hops : ∀ op ∈ ops, op.IsFinite) (ht : t ∈ s.allTurns ops) :
    t.line.command.IsFinite := by
  obtain ⟨-, op, hop, lines, htask, hline⟩ := mem_allTurns ht
  exact (hops op hop).lines htask t.line hline

theorem allTurns_requests (ht : t ∈ s.allTurns ops) :
    Driver.Reaches (t.before.machine.Allows t.line.command) t.before.driver t.after.driver := by
  have hafter : t.after = (t.before.turn t.line).after := congrArg Turn.after (mem_allTurns ht).1
  rw [hafter]
  exact Rig.step_requests t.before t.line

theorem after_usable {settings : Settings} (hsettings : settings.check = .ok ())
    {picture : Except RasterFault Mask} {driver : D} (h : start settings picture driver = .ok s)
    (hops : ∀ op ∈ ops, op.IsFinite) :
    (s.after ops).rig.machine.IsUsable ∧
      ∀ t ∈ s.allTurns ops, t.before.machine.IsUsable ∧ t.after.machine.IsUsable := by
  have hstart := start_has Machine.isUsable_lasts hsettings h
  have hturns (t : Turn D) (ht : t ∈ s.allTurns ops) := allTurns_finite hops ht
  have hturn (r : Rig D) (line : ProgramLine) (hline : (r.turn line).line.command.IsFinite)
      (hr : r.machine.IsUsable) := Rig.step_usable r line hr hline
  exact ⟨(after_has Machine.isUsable_lasts (fun t => t.line.command.IsFinite) hturn hstart hturns).2,
    fun t ht => allTurns_have Machine.isUsable_lasts _ hturn hstart hturns ht⟩

/-- A session with default settings that has just claimed a board with a tape. -/
def onTapedBoard : Session (Taped Handle) where
  settings := {}
  rig :=
    { machine := .powerOn {}
      driver := ⟨⟨{ settings := {}, claimed := true }, true⟩, [.claim]⟩ }

end Session

end Engraver
