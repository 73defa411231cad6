import Engraver.Motion.Belts

/-!
# Settings

Everything that can be set about the machine, its artwork, the simulated board, the camera survey
and the log. Every setting has a default.
-/

namespace Engraver

/-- What the machine is set to when it is switched on. -/
structure MachineSettings where
  /-- Belt steps per millimetre. -/
  stepCal : Float := 10
  /-- Millimetres per second with the laser armed. -/
  cutSpeed : Float := 1
  /-- Millimetres per second otherwise. -/
  travelSpeed : Float := 30
  bedXmax : Float := 200
  bedYmax : Float := 250
  /-- Degrees by which the gantry is off the square. -/
  skew : Float := 0

/-- The artwork: without a picture the whole bed is bright. -/
structure RasterSettings where
  path : Option String := none
  dpmm : Float := 0.00001
  /-- Places at least this bright are burned. -/
  threshold : UInt8 := 128
  /-- Dark pixels burn. -/
  invert : Bool := true

structure BoardSettings where
  stepsPerMm : Float := 10
  bedXmax : Float := 200
  bedYmax : Float := 250
  /-- Plans are refused until the board is homed. -/
  requireHoming : Bool := true
  /-- Plans take their time. -/
  realtime : Bool := false

structure SurveySettings where
  /-- Field of view, in millimetres. -/
  fov : Point Float := ⟨12, 16⟩
  /-- Millimetres per minute. -/
  feedrate : Float := 6000
  /-- The part of a tile that its neighbour covers too. -/
  overlap : Point Float := ⟨0.5, 0.5⟩
  /-- The camera's place beside the laser spot, in millimetres. -/
  offset : Point Float := ⟨30, 0⟩

structure LogSettings where
  level : String := "info"

structure Settings where
  machine : MachineSettings := {}
  raster : RasterSettings := {}
  board : BoardSettings := {}
  survey : SurveySettings := {}
  log : LogSettings := {}

end Engraver
