import Engraver.Proofs.Session.Views
import Engraver.Proofs.Survey.Frames

/-!
# Surveys that are watched

What hardware and camera do is written down in one list, in the order in which it happens. A survey does the same
when it is watched.
-/

namespace Engraver

/-! ## The list -/

/-- One thing that is seen. Homings and plans are seen with the status code that the hardware answers, captures
with the request for a stop that comes meanwhile. -/
inductive Sight (I : Type) where
  | told (q : Request)
  | homed (code : Int)
  | ran (plan : Plan) (code : Int)
  | captured (picture : Except String I) (stop : Bool)

/-- Hardware that is watched together with a camera, with all that has been seen, the oldest first. -/
structure Watched (D I : Type) where
  driver : D
  seen : List (Sight I) := []

namespace Watched

variable {C D I : Type} [Driver D] [Camera C D I]

def see (w : Watched D I) (sight : Sight I) (driver : D) : Watched D I :=
  ⟨driver, w.seen ++ [sight]⟩

instance : Driver (Watched D I) where
  claim w := ((Driver.claim w.driver).1, w.see (.told .claim) (Driver.claim w.driver).2)
  release w := w.see (.told .release) (Driver.release w.driver)
  setMotors on w :=
    ((Driver.setMotors on w.driver).1, w.see (.told (.setMotors on)) (Driver.setMotors on w.driver).2)
  laserOff w := w.see (.told .laserOff) (Driver.laserOff w.driver)
  readSwitches w :=
    ((Driver.readSwitches w.driver).1, w.see (.told .readSwitches) (Driver.readSwitches w.driver).2)
  home w :=
    ((Driver.home w.driver).1, w.see (.homed (Driver.home w.driver).1) (Driver.home w.driver).2)
  execute plan w :=
    ((Driver.execute plan w.driver).1,
      w.see (.ran plan (Driver.execute plan w.driver).1) (Driver.execute plan w.driver).2)

instance : Camera C (Watched D I) I where
  capture camera w :=
    let e := Camera.capture camera w.driver
    ⟨e.picture, e.camera, w.see (.captured e.picture e.stop) e.driver, e.stop⟩

def sight (d : D) : Request → Sight I
  | .home => .homed (Driver.home d).1
  | .execute plan => .ran plan (Driver.execute plan d).1
  | q => .told q

theorem serve_eq (w : Watched D I) (q : Request) :
    Driver.serve w q = w.see (sight w.driver q) (Driver.serve w.driver q) := by
  cases q <;> rfl

theorem mirror : Driver.Mirror (Watched.driver : Watched D I → D) := by
  refine ⟨?_, fun _ => rfl⟩
  constructor <;> intros <;> rfl

end Watched

namespace Session

variable {C D I : Type} [Camera C D I]

/-- The session watched from now on. -/
def watched (s : Session D) : Session (Watched D I) :=
  s.view (Rig.map fun driver => ⟨driver, []⟩)

/-- The session without the list. -/
def unwatched (s : Session (Watched D I)) : Session D :=
  s.view (Rig.map Watched.driver)

theorem unwatched_capture (s : Session (Watched D I)) (camera : C) :
    s.unwatched.capture camera =
      ((s.capture camera).1, (s.capture camera).2.1.unwatched, (s.capture camera).2.2) := by
  unfold capture
  dsimp only
  have hstop : (Camera.capture camera s.rig.driver).stop = (Camera.capture camera s.rig.driver.driver).stop := rfl
  have hdriver : s.unwatched.rig.driver = s.rig.driver.driver := rfl
  rw [hstop, hdriver]
  cases (Camera.capture camera s.rig.driver.driver).stop <;> rfl

variable [Driver D]

theorem watched_view : View (Watched.driver : Watched D I → D) (Rig.map Watched.driver) :=
  ⟨Rig.map_view Watched.mirror.toLikeness, fun _ _ => rfl⟩

theorem unwatched_ensureHomed (s : Session (Watched D I)) :
    s.unwatched.ensureHomed = (s.ensureHomed.1, s.ensureHomed.2.unwatched) := by
  have hhomed : s.unwatched.isHomed = s.isHomed := rfl
  rw [ensureHomed, ensureHomed, hhomed]
  cases s.isHomed with
  | false => exact watched_view.execute s .home
  | true => rfl

theorem surveyor_likeness (feedrate : Float) :
    Surveyor.Likeness (surveyor feedrate : Surveyor Float (Session (Watched D I) × C) SurveyError I)
      (surveyor feedrate : Surveyor Float (Session D × C) SurveyError I) (Prod.map unwatched id) where
  refuse := rfl
  prepare := fun (s, camera) => by
    rw [Prod.map, surveyor_prepare, surveyor_prepare, unwatched_ensureHomed]
    rcases s.ensureHomed with ⟨_ | _, after⟩ <;> rfl
  goTo x y := fun (s, camera) => by
    have hmove : s.unwatched.moveTo x y (some feedrate) = _ := watched_view.execute s _
    rw [Prod.map, surveyor_goTo, surveyor_goTo, hmove]
    rfl
  capture := fun (s, camera) => unwatched_capture s camera

/-- A survey does the same when it is watched. -/
theorem photograph_watched (s : Session D) (area : Area Float) (settings : SurveySettings) (camera : C) :
    let run := (s.watched : Session (Watched D I)).photograph area settings camera
    s.photograph area settings camera = (run.1, run.2.1.unwatched, run.2.2) :=
  (surveyor_likeness settings.feedrate).survey area settings.fov settings.overlap settings.offset (s.watched, camera)

end Session

end Engraver
