import Engraver.Number.Layout
import Engraver.Settings.Basic

/-!
# Settings that make sense

Calibration, speeds, sizes and resolutions must be positive numbers, the skew less than half a right
angle, and an overlap less than a whole tile.
-/

namespace Engraver

inductive SettingsFault where
  | notPositive (name : String) (value : Float)
  | skewTooLarge (value : Float)
  | badOverlap (axis : String) (value : Float)

def SettingsFault.message : SettingsFault → String
  | notPositive name value => s!"{name} must be > 0, got {Double.toText value}"
  | skewTooLarge value =>
    "machine.skew must be within (-45, 45) degrees, got " ++ Double.toText value
  | badOverlap axis value => s!"scan.overlap.{axis} must be in [0, 1), got {Double.toText value}"

namespace Settings

def positive (name : String) (value : Float) : Except SettingsFault Unit :=
  if value.isFinite && 0 < value then .ok () else .error (.notPositive name value)

/-- A part of a tile, but not all of it. -/
def partOfTile (axis : String) (value : Float) : Except SettingsFault Unit :=
  if 0 ≤ value && value < 1 then .ok () else .error (.badOverlap axis value)

/-- Less than half a right angle to either side. -/
def tilt (value : Float) : Except SettingsFault Unit :=
  if value.isFinite && value.abs < 45 then .ok () else .error (.skewTooLarge value)

/-- Check the settings in order; the first fault wins. -/
def check (s : Settings) : Except SettingsFault Unit := do
  positive "machine.step_cal" s.machine.stepCal
  positive "machine.cut_speed" s.machine.cutSpeed
  positive "machine.travel_speed" s.machine.travelSpeed
  positive "machine.bed_xmax" s.machine.bedXmax
  positive "machine.bed_ymax" s.machine.bedYmax
  tilt s.machine.skew
  positive "raster.dpmm" s.raster.dpmm
  positive "simulator.steps_per_mm" s.board.stepsPerMm
  positive "simulator.bed_xmax" s.board.bedXmax
  positive "simulator.bed_ymax" s.board.bedYmax
  positive "scan.fov.x" s.survey.fov.x
  positive "scan.fov.y" s.survey.fov.y
  positive "scan.feedrate" s.survey.feedrate
  partOfTile "x" s.survey.overlap.x
  partOfTile "y" s.survey.overlap.y

end Settings

end Engraver
