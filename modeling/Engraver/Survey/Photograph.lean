import Engraver.Session.Basic
import Engraver.Survey.Tiles

/-!
# Photographing an area

The head goes to every tile in turn, and a picture is taken when it has arrived.
-/

namespace Engraver

/-- A picture with its tile and the place the camera looked at. -/
structure Frame (I : Type) (α : Type := Float) where
  tile : Tile α
  centre : Point α
  picture : I

/-! ## Surveys -/

/-- What a survey asks of a machine with a camera on its head. The state is that of the machine and
its camera. -/
structure Surveyor (α S ε I : Type) where
  /-- The failure for an area that cannot be covered. -/
  refuse : AreaFault α → ε
  /-- Get ready to go to places on the bed. -/
  prepare : S → Except ε Unit × S
  goTo : α → α → S → Except ε Unit × S
  /-- Take a picture where the head stands. -/
  capture : S → Except ε I × S

namespace Surveyor

variable {α S ε I : Type} [Scalar α] (m : Surveyor α S ε I)

/-- Visit tiles in order after those whose frames are given; the first failure ends the survey. -/
def visit (offset : Point α) (frames : List (Frame I α)) (s : S) :
    List (Tile α) → Except ε (List (Frame I α)) × S
  | [] => (.ok frames, s)
  | tile :: tiles =>
    match m.goTo tile.x tile.y s with
    | (.error e, s) => (.error e, s)
    | (.ok (), s) =>
      match m.capture s with
      | (.error e, s) => (.error e, s)
      | (.ok picture, s) =>
        let centre := ⟨tile.x + offset.x, tile.y + offset.y⟩
        visit offset (frames ++ [⟨tile, centre, picture⟩]) s tiles

/-- Photograph an area tile by tile. The tiles are counted before anything else is done. -/
def survey (area : Area α) (fov overlap offset : Point α) (s : S) :
    Attempt ε (List (Frame I α)) × S :=
  match Tiling.cover area fov overlap with
  | .panicked => (.panicked, s)
  | .error fault => (.error (m.refuse fault), s)
  | .ok tiling =>
    match m.prepare s with
    | (.error e, s) => (.error e, s)
    | (.ok (), s) =>
      let (result, s) := m.visit offset [] s tiling.tiles
      (.ofExcept result, s)

end Surveyor

/-! ## Sessions with a camera -/

/-- What taking a picture gives. The camera stands in the same room as the hardware: hardware may
change meanwhile, and somebody may ask for a stop. -/
structure Exposure (C D I : Type) where
  picture : Except String I
  camera : C
  driver : D
  stop : Bool := false

class Camera (C D : Type) (I : outParam Type) where
  capture : C → D → Exposure C D I

inductive SurveyError where
  | area (cause : AreaFault Float)
  | camera (reason : String)
  | session (cause : SessionError)

def SurveyError.message : SurveyError → String
  | area cause => cause.message
  | camera reason => "Camera error: " ++ reason
  | session cause => cause.message

namespace Session

variable {C D I : Type} [Driver D] [Camera C D I]

/-- Take a picture where the head stands. -/
def capture (s : Session D) (camera : C) : Except SurveyError I × Session D × C :=
  let e := Camera.capture camera s.rig.driver
  let s := { s with rig := { s.rig with driver := e.driver } }
  let s := if e.stop then s.requestStop else s
  (e.picture.mapError .camera, s, e.camera)

/-- Home if the machine does not know where it is. -/
def ensureHomed (s : Session D) : Except SessionError Unit × Session D :=
  if s.isHomed then (.ok (), s) else s.home

/-- A session with a camera. All its moves have the same feedrate. -/
def surveyor (feedrate : Float) : Surveyor Float (Session D × C) SurveyError I where
  refuse := .area
  prepare := fun (s, camera) =>
    match s.ensureHomed with
    | (.error e, s) => (.error (.session e), s, camera)
    | (.ok (), s) => (.ok (), s.setAbsolute, camera)
  goTo x y := fun (s, camera) =>
    match s.moveTo x y (some feedrate) with
    | (.error e, s) => (.error (.session e), s, camera)
    | (.ok (), s) => (.ok (), s, camera)
  capture := fun (s, camera) => s.capture camera

def photograph (s : Session D) (area : Area Float) (settings : SurveySettings) (camera : C) :
    Attempt SurveyError (List (Frame I)) × Session D × C :=
  (surveyor settings.feedrate).survey area settings.fov settings.overlap settings.offset (s, camera)

end Session

end Engraver
