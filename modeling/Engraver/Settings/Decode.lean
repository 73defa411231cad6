import Engraver.Settings.Basic
import Engraver.Toml.Value

/-!
# Settings from a table

A section is a table of named settings, or a list of them in their order. What is left out keeps its
default, and a value of the wrong kind is refused. Surplus items of a list are passed over unseen; under
an unknown name any bounded value will do.
-/

namespace Engraver

namespace Toml.Value

/-! ## Single settings -/

/-- A number; whole numbers count if they fit a 64-bit word. -/
def float? : Value → Option Float
  | number x => some x
  | whole n => if Double.minSteps ≤ n ∧ n ≤ Double.maxCount then some (Float.ofInt n) else none
  | _ => none

/-- A whole number from 0 to 255. -/
def byte? : Value → Option UInt8
  | whole n => if 0 ≤ n ∧ n ≤ 255 then some (.ofNat n.toNat) else none
  | _ => none

def flag? : Value → Option Bool
  | flag on => some on
  | _ => none

def text? : Value → Option String
  | text t => some t
  | _ => none

/-- A list whose first two items are numbers. -/
def point? : Value → Option (Point Float)
  | list _ (x :: y :: _) => return ⟨← x.float?, ← y.float?⟩
  | _ => none

/-! ## Sections -/

/-- Look up a setting by its name in a table and by its place in a list. -/
def setting? (name : String) (place : Nat) : Value → Option Value
  | table _ entries => Entries.get? entries name
  | list _ items => items[place]?
  | _ => none

/-- Whether a value can be a section with these settings. A date has no settings at all. -/
def isSection (names : List String) : Value → Bool
  | table _ entries => entries.all fun e => names.contains e.1 || e.2.isBounded
  | list .. | moment => true
  | _ => false

/-- One setting of a section; its default if it is left out. -/
def read {α : Type} (part : Value) (name : String) (place : Nat) (of : Value → Option α)
    (default : α) : Option α :=
  match part.setting? name place with
  | none => some default
  | some value => of value

/-- A section with these settings, if the value can be one. -/
def asSection {α : Type} (names : List String) (of : Value → Option α) (value : Value) : Option α :=
  if value.isSection names then of value else none

end Toml.Value

open Toml

def MachineSettings.ofValue? : Value → Option MachineSettings :=
  let d : MachineSettings := {}
  Value.asSection ["step_cal", "cut_speed", "travel_speed", "bed_xmax", "bed_ymax", "skew"] fun v => do
    return {
      stepCal := ← v.read "step_cal" 0 Value.float? d.stepCal
      cutSpeed := ← v.read "cut_speed" 1 Value.float? d.cutSpeed
      travelSpeed := ← v.read "travel_speed" 2 Value.float? d.travelSpeed
      bedXmax := ← v.read "bed_xmax" 3 Value.float? d.bedXmax
      bedYmax := ← v.read "bed_ymax" 4 Value.float? d.bedYmax
      skew := ← v.read "skew" 5 Value.float? d.skew }

def RasterSettings.ofValue? : Value → Option RasterSettings :=
  let d : RasterSettings := {}
  Value.asSection ["path", "dpmm", "threshold", "invert"] fun v => do
    return {
      path := ← v.read "path" 0 (fun v => v.text?.map some) d.path
      dpmm := ← v.read "dpmm" 1 Value.float? d.dpmm
      threshold := ← v.read "threshold" 2 Value.byte? d.threshold
      invert := ← v.read "invert" 3 Value.flag? d.invert }

def BoardSettings.ofValue? : Value → Option BoardSettings :=
  let d : BoardSettings := {}
  Value.asSection ["steps_per_mm", "bed_xmax", "bed_ymax", "require_homing", "realtime"] fun v => do
    return {
      stepsPerMm := ← v.read "steps_per_mm" 0 Value.float? d.stepsPerMm
      bedXmax := ← v.read "bed_xmax" 1 Value.float? d.bedXmax
      bedYmax := ← v.read "bed_ymax" 2 Value.float? d.bedYmax
      requireHoming := ← v.read "require_homing" 3 Value.flag? d.requireHoming
      realtime := ← v.read "realtime" 4 Value.flag? d.realtime }

def SurveySettings.ofValue? : Value → Option SurveySettings :=
  let d : SurveySettings := {}
  Value.asSection ["fov", "feedrate", "overlap", "offset"] fun v => do
    return {
      fov := ← v.read "fov" 0 Value.point? d.fov
      feedrate := ← v.read "feedrate" 1 Value.float? d.feedrate
      overlap := ← v.read "overlap" 2 Value.point? d.overlap
      offset := ← v.read "offset" 3 Value.point? d.offset }

def LogSettings.ofValue? : Value → Option LogSettings :=
  let d : LogSettings := {}
  Value.asSection ["level"] fun v => do
    return { level := ← v.read "level" 0 Value.text? d.level }

def Settings.ofValue? : Value → Option Settings :=
  Value.asSection ["machine", "raster", "simulator", "scan", "logging"] fun v => do
    return {
      machine := ← v.read "machine" 0 MachineSettings.ofValue? {}
      raster := ← v.read "raster" 1 RasterSettings.ofValue? {}
      board := ← v.read "simulator" 2 BoardSettings.ofValue? {}
      survey := ← v.read "scan" 3 SurveySettings.ofValue? {}
      log := ← v.read "logging" 4 LogSettings.ofValue? {} }

end Engraver
