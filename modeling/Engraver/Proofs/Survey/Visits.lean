import Engraver.Proofs.Machine.Queries
import Engraver.Proofs.Session.Feedrates
import Engraver.Proofs.Survey.Counting
import Engraver.Proofs.Survey.Watched

/-!
# Tiles are visited one after another

What a survey is seen to do is a trip: for each tile in order one plan that runs to its end, and then one picture.
The trip goes over all tiles, or it ends at the tile where something fails.
-/

namespace Engraver

/-! ## Trips -/

/-- The move that goes to a tile. -/
def Tile.move (feedrate : Float) (tile : Tile Float) : Move :=
  .rapid tile.x tile.y (some feedrate)

/-- The machine after a move that ran to its end. -/
def Machine.arrived (m : Machine) (v : Move) : Machine :=
  { m.fed v.kind v.feedrate with position := m.target v.x v.y }

/-- A visit to a tile: the plan that went there, the picture taken there, and whether somebody asked for a stop
meanwhile. -/
structure Leg (I : Type) where
  tile : Tile Float
  plan : Plan
  picture : I
  stop : Bool

namespace Leg

variable {I : Type}

/-- What is seen of a visit: the plan runs to its end, and then the picture is taken. -/
def sights (leg : Leg I) : List (Sight I) :=
  [.ran leg.plan 0, .captured (.ok leg.picture) leg.stop]

def frame (offset : Point Float) (leg : Leg I) : Frame I :=
  ⟨leg.tile, ⟨leg.tile.x + offset.x, leg.tile.y + offset.y⟩, leg.picture⟩

end Leg

/-- What decides about the next move. -/
structure Stage where
  machine : Machine
  stop : StopLine
  active : Bool

namespace Stage

variable {I : Type}

/-- The next move is sent off: nothing keeps it back, its coordinates are places on the bed, and it has a plan. -/
structure Sends (g : Stage) (feedrate : Float) (tile : Tile Float) (plan : Plan) : Prop where
  active : g.active = true
  unstopped : g.stop.take.1 = false
  absolute : g.machine.mode = .absolute
  planned : g.machine.planned (tile.move feedrate) = .ok plan

def after (g : Stage) (feedrate : Float) (leg : Leg I) : Stage where
  machine := g.machine.arrived (leg.tile.move feedrate)
  stop := if leg.stop then g.stop.take.2.request else g.stop.take.2
  active := g.active

/-- Visits one after another, each from where the one before ended. -/
inductive Trip (feedrate : Float) : Stage → List (Leg I) → Stage → Prop
  | done (g : Stage) : Trip feedrate g [] g
  | leg {g last : Stage} {leg : Leg I} {legs : List (Leg I)} (sends : g.Sends feedrate leg.tile leg.plan)
      (rest : Trip feedrate (g.after feedrate leg) legs last) : Trip feedrate g (leg :: legs) last

/-- Laser and motors are switched off. -/
def switchedOff : List (Sight I) :=
  [.told .laserOff, .told (.setMotors false)]

/-- How a machine gets ready to go to places on the bed: it is homed unless it knows where it is. With what is seen,
and the stage at the first tile or the error. -/
inductive Readies (g : Stage) : List (Sight I) → Except SurveyError Stage → Prop
  | homed (homed : g.machine.homed = true) :
      Readies g [] (.ok { g with machine := { g.machine with mode := .absolute } })
  | locked (unhomed : g.machine.homed = false) (inactive : g.active = false) :
      Readies g [] (.error (.session .terminated))
  | stopped (unhomed : g.machine.homed = false) (active : g.active = true) (stopped : g.stop.take.1 = true) :
      Readies g switchedOff (.error (.session (.execution (.stopRequested 0))))
  | faulted (code : Int) (unhomed : g.machine.homed = false) (active : g.active = true)
      (unstopped : g.stop.take.1 = false) (fault : code ≠ 0) :
      Readies g (.told (.setMotors true) :: .homed code :: switchedOff)
        (.error (.session (.execution (.motion 0 ⟨.ofCode code⟩))))
  | found (unhomed : g.machine.homed = false) (active : g.active = true) (unstopped : g.stop.take.1 = false) :
      Readies g [.told (.setMotors true), .homed 0] (.ok {
        machine := { g.machine with motors := true, position := ⟨0, 0⟩, homed := true, mode := .absolute }
        stop := g.stop.take.2
        active := true })

/-- A visit that fails, with what is seen of it and the error. -/
inductive Halts (g : Stage) (feedrate : Float) (tile : Tile Float) : List (Sight I) → SurveyError → Prop
  | locked (inactive : g.active = false) : Halts g feedrate tile [] (.session .terminated)
  | stopped (active : g.active = true) (stopped : g.stop.take.1 = true) :
      Halts g feedrate tile switchedOff (.session (.execution (.stopRequested 0)))
  | refused (refusal : Refusal Float) (active : g.active = true) (unstopped : g.stop.take.1 = false)
      (refused : g.machine.planned (tile.move feedrate) = .error refusal) :
      Halts g feedrate tile switchedOff (.session (.execution (.plan 0 refusal)))
  | faulted (plan : Plan) (code : Int) (sends : g.Sends feedrate tile plan) (fault : code ≠ 0) :
      Halts g feedrate tile (.ran plan code :: switchedOff) (.session (.execution (.motion 0 ⟨.ofCode code⟩)))
  | blind (plan : Plan) (reason : String) (stop : Bool) (sends : g.Sends feedrate tile plan) :
      Halts g feedrate tile [.ran plan 0, .captured (.error reason) stop] (.camera reason)

/-- What is seen of the visits to tiles, and what comes of them: a frame for each tile, or the error of the tile at
which the trip ends. -/
inductive Visits (g : Stage) (feedrate : Float) (offset : Point Float) (tiles : List (Tile Float)) :
    List (Sight I) → Except SurveyError (List (Frame I)) → Prop
  | all (legs : List (Leg I)) (last : Stage) (trip : g.Trip feedrate legs last)
      (whole : legs.map Leg.tile = tiles) :
      Visits g feedrate offset tiles (legs.flatMap Leg.sights) (.ok (legs.map (Leg.frame offset)))
  | failing (legs : List (Leg I)) (last : Stage) (tile : Tile Float) (rest : List (Tile Float))
      (sights : List (Sight I)) (e : SurveyError) (trip : g.Trip feedrate legs last)
      (reached : tiles = legs.map Leg.tile ++ tile :: rest) (halts : last.Halts feedrate tile sights e) :
      Visits g feedrate offset tiles (legs.flatMap Leg.sights ++ sights) (.error e)

theorem Visits.cons {g : Stage} {feedrate : Float} {offset : Point Float} {leg : Leg I}
    {tiles : List (Tile Float)} {sights : List (Sight I)} {result : Except SurveyError (List (Frame I))}
    (sends : g.Sends feedrate leg.tile leg.plan)
    (h : (g.after feedrate leg).Visits feedrate offset tiles sights result) :
    g.Visits feedrate offset (leg.tile :: tiles) (leg.sights ++ sights) (result.map (leg.frame offset :: ·)) := by
  cases h with
  | all legs last trip whole =>
    exact .all (leg :: legs) last (.leg sends trip) (by rw [List.map_cons, whole])
  | failing legs last tile rest sights e trip reached halts =>
    rw [← List.append_assoc]
    exact .failing (leg :: legs) last tile rest sights e (.leg sends trip) (by rw [reached]; rfl) halts

end Stage

/-! ## One move -/

open Double (counterEnd)
open Stage (switchedOff)

namespace Rig

variable {D I : Type} [Driver D]

theorem shutDown_seen (r : Rig (Watched D I)) : r.shutDown.driver.seen = r.driver.seen ++ switchedOff := by
  rw [shutDown_driver, Watched.serve_eq, Watched.serve_eq]
  exact List.append_assoc _ _ _

theorem shutDown_mode {E : Type} [Driver E] (r : Rig E) : r.shutDown.machine.mode = r.machine.mode := by
  rw [shutDown_machine]

theorem abort_ends (r : Rig (Watched D I)) (e : MotionError) :
    (r.abort 0 e).1 = .error (.ofMotion 0 e) ∧ (r.abort 0 e).2.driver.seen = r.driver.seen ++ switchedOff ∧
      (r.abort 0 e).2.machine.mode = r.machine.mode :=
  ⟨rfl, shutDown_seen (r.notify _), shutDown_mode (r.notify _)⟩

theorem perform_refused (r : Rig (Watched D I)) (v : Move) {refusal : Refusal Float}
    (h : r.machine.planned v = .error refusal) :
    let out := r.perform 0 v.command
    out.1 = .error (.plan 0 refusal) ∧ out.2.driver.seen = r.driver.seen ++ switchedOff ∧
      out.2.machine.mode = r.machine.mode := by
  intro out
  obtain ⟨hresult, hdriver, hmachine⟩ := move_of_refused r v refusal h
  obtain ⟨herror, hseen, hmode⟩ := (r.move v).2.abort_ends (.refused refusal)
  have hperform : out = (r.move v).2.concluded 0 ((r.move v).1.map fun _ => ()) := perform_move r 0 _ _ _ _
  rw [hperform, hresult]
  refine ⟨herror, ?_, ?_⟩
  · exact hseen.trans (by rw [hdriver])
  · exact hmode.trans (by rw [hmachine, Machine.fed_mode])

theorem perform_planned (r : Rig (Watched D I)) (v : Move) {plan : Plan} (h : r.machine.planned v = .ok plan) :
    let out := r.perform 0 v.command
    let code := (Driver.execute plan r.driver.driver).1
    out.2.machine.mode = r.machine.mode ∧
      if code = 0 then
        out.1 = .ok (.next none) ∧ out.2.driver.seen = r.driver.seen ++ [.ran plan 0] ∧
          out.2.machine = r.machine.arrived v
      else out.1 = .error (.motion 0 ⟨.ofCode code⟩) ∧
        out.2.driver.seen = r.driver.seen ++ .ran plan code :: switchedOff := by
  intro out code
  obtain ⟨hdriver, hmove⟩ := move_of_planned r v plan h
  have hanswer : (Driver.execute plan r.driver).1 = code := rfl
  rw [hanswer] at hmove
  have hseen : (r.move v).2.driver.seen = r.driver.seen ++ [.ran plan code] := by
    rw [hdriver, Watched.serve_eq]
    rfl
  have hperform : out = (r.move v).2.concluded 0 ((r.move v).1.map fun _ => ()) := perform_move r 0 _ _ _ _
  by_cases hcode : code = 0
  · rw [if_pos hcode] at hmove ⊢
    rw [hperform, hmove.1]
    refine ⟨?_, rfl, ?_, hmove.2⟩
    · exact (congrArg Machine.mode hmove.2).trans (Machine.fed_mode _ _ _)
    · rw [← hcode]
      exact hseen
  · rw [if_neg hcode] at hmove ⊢
    obtain ⟨herror, habort, hmode⟩ := (r.move v).2.abort_ends (.fault ⟨.ofCode code⟩)
    rw [hperform, hmove.1]
    refine ⟨?_, herror, ?_⟩
    · exact hmode.trans ((congrArg Machine.mode hmove.2).trans (Machine.fed_mode _ _ _))
    · exact habort.trans (by rw [hseen, List.append_assoc]; rfl)

theorem perform_homing (r : Rig (Watched D I)) :
    let out := r.perform 0 .home
    if r.homingCode = 0 then
      out.1 = .ok (.next none) ∧ out.2.driver.seen = r.driver.seen ++ [.told (.setMotors true), .homed 0] ∧
        out.2.machine = { r.machine with motors := true, position := ⟨0, 0⟩, homed := true }
    else out.1 = .error (.motion 0 ⟨.ofCode r.homingCode⟩) ∧
      out.2.driver.seen = r.driver.seen ++ .told (.setMotors true) :: .homed r.homingCode :: switchedOff := by
  intro out
  obtain ⟨hdriver, hhome⟩ := home_spec r
  have hseen : r.home.2.driver.seen = r.driver.seen ++ [.told (.setMotors true), .homed r.homingCode] := by
    rw [hdriver, Watched.serve_eq, Watched.serve_eq]
    exact List.append_assoc _ _ _
  have hperform : out = r.home.2.concluded 0 (r.home.1.mapError .fault) := perform_home r 0
  by_cases hcode : r.homingCode = 0
  · rw [if_pos hcode] at hhome ⊢
    rw [hperform, hhome.1]
    refine ⟨rfl, ?_, hhome.2⟩
    rw [← hcode]
    exact hseen
  · rw [if_neg hcode] at hhome ⊢
    obtain ⟨herror, habort, -⟩ := r.home.2.abort_ends (.fault ⟨.ofCode r.homingCode⟩)
    rw [hperform, hhome.1]
    exact ⟨herror, habort.trans (by rw [hseen, List.append_assoc]; rfl)⟩

end Rig

/-! ## One visit -/

namespace Session

variable {C D I : Type}

def seen (s : Session (Watched D I)) : List (Sight I) :=
  s.rig.driver.seen

def stage (s : Session D) : Stage :=
  ⟨s.rig.machine, s.rig.stop, s.isActive⟩

theorem leave_stage (s : Session D) (rig : Rig D) :
    (s.leave rig s.terminated).stage = ⟨rig.machine, rig.stop, s.isActive⟩ := rfl

theorem setAbsolute_stage (s : Session D) :
    s.setAbsolute.stage = { s.stage with machine := { s.stage.machine with mode := .absolute } } := rfl

section Capture

variable [Camera C D I]

theorem capture_ends (s : Session (Watched D I)) (camera : C) :
    let out := s.capture camera
    ∃ stop, out.2.1.stage = ⟨s.rig.machine, if stop then s.rig.stop.request else s.rig.stop, s.isActive⟩ ∧
      ((∃ reason, out.1 = .error (.camera reason) ∧ out.2.1.seen = s.seen ++ [.captured (.error reason) stop]) ∨
        ∃ picture, out.1 = .ok picture ∧ out.2.1.seen = s.seen ++ [.captured (.ok picture) stop]) := by
  intro out
  let e := Camera.capture camera s.rig.driver
  let s' : Session (Watched D I) := { s with rig := { s.rig with driver := e.driver } }
  have hleft : out.2.1 = if e.stop then s'.requestStop else s' := rfl
  have hseen : out.2.1.seen = s.seen ++ [.captured e.picture e.stop] := by
    rw [hleft]
    split <;> rfl
  refine ⟨e.stop, ?_, ?_⟩
  · rw [hleft]
    split <;> rfl
  · have hresult : out.1 = e.picture.mapError .camera := rfl
    rw [hresult, hseen]
    cases e.picture with
    | error reason => exact .inl ⟨reason, rfl, rfl⟩
    | ok picture => exact .inr ⟨picture, rfl, rfl⟩

end Capture

variable [Driver D]

theorem ensureHomed_readies (s : Session (Watched D I)) :
    let out := s.ensureHomed
    ∃ sights ready, s.stage.Readies sights ready ∧ out.2.seen = s.seen ++ sights ∧
      match ready with
      | .error e => out.1.mapError .session = .error e
      | .ok g => out.1 = .ok () ∧ out.2.setAbsolute.stage = g := by
  intro out
  cases hhomed : s.isHomed with
  | true =>
    have hout : out = (.ok (), s) := if_pos hhomed
    rw [hout]
    exact ⟨[], _, .homed hhomed, (List.append_nil _).symm, rfl, rfl⟩
  | false =>
    have hout : out = s.execute .home := if_neg (Bool.not_eq_true _ ▸ hhomed)
    rw [hout]
    cases hactive : s.isActive with
    | false =>
      rw [s.execute_locked _ hactive]
      exact ⟨[], _, .locked hhomed hactive, (List.append_nil _).symm, rfl⟩
    | true =>
      cases hstop : s.rig.stop.take.1 with
      | true =>
        rw [s.execute_stopped _ hactive hstop]
        exact ⟨switchedOff, _, .stopped hhomed hactive hstop, Rig.shutDown_seen _, rfl⟩
      | false =>
        rw [s.execute_obeyed _ ⟨hactive, hstop⟩]
        have hends := s.rig.looked.perform_homing
        split at hends
        · rw [hends.1]
          refine ⟨_, _, .found hhomed hactive hstop, hends.2.1, rfl, ?_⟩
          rw [setAbsolute_stage, leave_stage, hends.2.2, Rig.perform_stop, hactive]
          rfl
        · rename_i hcode
          rw [hends.1]
          exact ⟨_, _, .faulted _ hhomed hactive hstop hcode, hends.2, rfl⟩

theorem moveTo_tile (s : Session (Watched D I)) (hmode : s.rig.machine.mode = .absolute) (feedrate : Float)
    (tile : Tile Float) :
    let out := s.moveTo tile.x tile.y (some feedrate)
    out.2.rig.machine.mode = .absolute ∧
      ((∃ plan, s.stage.Sends feedrate tile plan ∧ out.1 = .ok () ∧ out.2.seen = s.seen ++ [.ran plan 0] ∧
        out.2.stage = ⟨s.rig.machine.arrived (tile.move feedrate), s.rig.stop.take.2, s.isActive⟩) ∨
      ∃ e sights, s.stage.Halts feedrate tile sights (.session e) ∧ out.1 = .error e ∧
        out.2.seen = s.seen ++ sights) := by
  intro out
  have hout : out = s.execute (tile.move feedrate).command := rfl
  rw [hout]
  cases hactive : s.isActive with
  | false =>
    rw [s.execute_locked _ hactive]
    exact ⟨hmode, .inr ⟨_, [], .locked hactive, rfl, (List.append_nil _).symm⟩⟩
  | true =>
    cases hstop : s.rig.stop.take.1 with
    | true =>
      rw [s.execute_stopped _ hactive hstop]
      exact ⟨(Rig.shutDown_mode _).trans hmode,
        .inr ⟨_, switchedOff, .stopped hactive hstop, rfl, Rig.shutDown_seen _⟩⟩
    | false =>
      rw [s.execute_obeyed _ ⟨hactive, hstop⟩]
      cases hplan : s.rig.looked.machine.planned (tile.move feedrate) with
      | error refusal =>
        obtain ⟨hresult, hseen, hkept⟩ := s.rig.looked.perform_refused _ hplan
        rw [hresult]
        exact ⟨hkept.trans hmode, .inr ⟨_, switchedOff, .refused refusal hactive hstop hplan, rfl, hseen⟩⟩
      | ok plan =>
        obtain ⟨hkept, hends⟩ := s.rig.looked.perform_planned _ hplan
        have hsends : s.stage.Sends feedrate tile plan := ⟨hactive, hstop, hmode, hplan⟩
        refine ⟨hkept.trans hmode, ?_⟩
        split at hends
        · rw [hends.1]
          refine .inl ⟨plan, hsends, rfl, hends.2.1, ?_⟩
          rw [leave_stage, hends.2.2, Rig.perform_stop, hactive]
          rfl
        · rename_i hcode
          rw [hends.1]
          exact .inr ⟨_, _, .faulted plan _ hsends hcode, rfl, hends.2⟩

variable [Camera C D I] (settings : SurveySettings)

theorem visit_tile (s : Session (Watched D I)) (camera : C) (hmode : s.rig.machine.mode = .absolute)
    (tile : Tile Float) :
    let visit := (surveyor settings.feedrate : Surveyor Float (Session (Watched D I) × C) _ I).visit settings.offset
    ∃ (after : Session (Watched D I)) (camera' : C), after.rig.machine.mode = .absolute ∧
      ((∃ e sights, s.stage.Halts settings.feedrate tile sights e ∧ after.seen = s.seen ++ sights ∧
        ∀ frames tiles, visit frames (s, camera) (tile :: tiles) = (.error e, after, camera')) ∨
      ∃ leg : Leg I, leg.tile = tile ∧ s.stage.Sends settings.feedrate tile leg.plan ∧
        after.stage = s.stage.after settings.feedrate leg ∧ after.seen = s.seen ++ leg.sights ∧
        ∀ frames tiles, visit frames (s, camera) (tile :: tiles) =
          visit (frames ++ [leg.frame settings.offset]) (after, camera') tiles) := by
  obtain ⟨habsolute, harrives⟩ := s.moveTo_tile hmode settings.feedrate tile
  have hgo := surveyor_goTo settings.feedrate s camera tile.x tile.y (I := I)
  rcases hmove : s.moveTo tile.x tile.y (some settings.feedrate) with ⟨e | _, there⟩ <;>
    rw [hmove] at habsolute harrives hgo
  · obtain ⟨_, _, hok, _⟩ | ⟨_, sights, hhalts, herror, hseen⟩ := harrives
    · cases hok
    · cases herror
      exact ⟨there, camera, habsolute,
        .inl ⟨_, sights, hhalts, hseen, fun _ tiles => Surveyor.visit_of_stuck tiles hgo⟩⟩
  · obtain ⟨plan, hsends, -, hran, hthere⟩ | ⟨_, _, _, herror, _⟩ := harrives
    swap
    · cases herror
    obtain ⟨stop, hafter, hends⟩ := there.capture_ends camera
    rcases hcapture : there.capture camera with ⟨result, after, camera'⟩
    rw [hcapture] at hafter hends
    refine ⟨after, camera', (congrArg (·.machine.mode) hafter).trans habsolute, ?_⟩
    obtain ⟨reason, rfl, hsaw⟩ | ⟨picture, rfl, hsaw⟩ := hends
    · refine .inl ⟨_, _, .blind plan reason stop hsends, ?_, fun _ tiles => Surveyor.visit_of_blind tiles hgo hcapture⟩
      rw [hsaw, hran]
      exact List.append_assoc _ _ _
    · refine .inr ⟨⟨tile, plan, picture, stop⟩, rfl, hsends, ?_, ?_, fun _ tiles =>
        Surveyor.visit_of_captured tiles hgo hcapture⟩
      · obtain ⟨hmachine, hstop, hactive⟩ := Stage.mk.inj hthere
        rw [hafter, hmachine, hstop, hactive]
        rfl
      · rw [hsaw, hran]
        exact List.append_assoc _ _ _

/-- What is seen of the visits to tiles from where the session is. -/
theorem visit_visits (s : Session (Watched D I)) (camera : C) (hmode : s.rig.machine.mode = .absolute)
    (frames : List (Frame I)) (tiles : List (Tile Float)) :
    let out := (surveyor settings.feedrate).visit settings.offset frames (s, camera) tiles
    out.2.1.rig.machine.mode = .absolute ∧ ∃ sights result,
      s.stage.Visits settings.feedrate settings.offset tiles sights result ∧ out.1 = result.map (frames ++ ·) ∧
        out.2.1.seen = s.seen ++ sights := by
  induction tiles generalizing s camera frames with
  | nil =>
    have hframes : (.ok frames : Except SurveyError (List (Frame I))) = .ok (frames ++ []) := by
      rw [List.append_nil]
    exact ⟨hmode, [], .ok [], .all [] _ (.done _) rfl, hframes, (List.append_nil _).symm⟩
  | cons tile tiles ih =>
    obtain ⟨after, camera', habsolute, ⟨e, sights, hhalts, hseen, hvisit⟩ |
      ⟨leg, rfl, hsends, hafter, hseen, hvisit⟩⟩ := visit_tile settings s camera hmode tile
    · rw [hvisit]
      exact ⟨habsolute, sights, .error e, .failing [] _ tile tiles sights e (.done _) rfl hhalts, rfl, hseen⟩
    · rw [hvisit]
      obtain ⟨hlast, sights, result, hvisits, hresult, hrest⟩ :=
        ih after camera' habsolute (frames ++ [leg.frame settings.offset])
      rw [hafter] at hvisits
      refine ⟨hlast, _, _, hvisits.cons hsends, ?_, ?_⟩
      · rw [hresult]
        cases result with
        | error e => rfl
        | ok rest => exact congrArg Except.ok (List.append_assoc _ _ _)
      · rw [hrest, hseen, List.append_assoc]

/-! ## The whole survey -/

theorem photograph_refused (s : Session D) (area : Area Float) (camera : C) {fault : AreaFault Float}
    (h : Tiling.cover area settings.fov settings.overlap = .error fault) :
    s.photograph area settings camera = (.error (.area fault), s, camera) := by
  unfold photograph Surveyor.survey
  rw [h]
  rfl

theorem photograph_panics (s : Session D) (area : Area Float) (camera : C)
    (h : Tiling.cover area settings.fov settings.overlap = .panicked) :
    s.photograph area settings camera = (.panicked, s, camera) := by
  unfold photograph Surveyor.survey
  rw [h]

theorem photograph_visits (s : Session (Watched D I)) (area : Area Float) (camera : C) {t : Tiling Float}
    (h : Tiling.cover area settings.fov settings.overlap = .ok t) :
    let run := s.photograph area settings camera
    ∃ sights ready, s.stage.Readies sights ready ∧
      match ready with
      | .error e => run.1 = .error e ∧ run.2.1.seen = s.seen ++ sights
      | .ok g => run.2.1.rig.machine.mode = .absolute ∧ ∃ visited result,
        g.Visits settings.feedrate settings.offset t.tiles visited result ∧ run.1 = .ofExcept result ∧
          run.2.1.seen = s.seen ++ sights ++ visited := by
  intro run
  have hrun : run = (surveyor settings.feedrate).survey area settings.fov settings.overlap settings.offset
    (s, camera) := rfl
  rw [Surveyor.survey, h] at hrun
  obtain ⟨sights, ready, hreadies, hseen, hends⟩ := s.ensureHomed_readies
  refine ⟨sights, ready, hreadies, ?_⟩
  dsimp only at hrun
  rw [surveyor_prepare] at hrun
  rcases hhome : s.ensureHomed with ⟨e | _, after⟩ <;>
    rw [hhome] at hseen hends hrun <;> rw [hrun]
  · cases ready with
    | error e =>
      cases hends
      exact ⟨rfl, hseen⟩
    | ok g => cases hends.1
  · cases ready with
    | error e => cases hends
    | ok g =>
      obtain ⟨hmode, visited, result, hvisits, hresult, hlater⟩ :=
        visit_visits settings after.setAbsolute camera rfl [] t.tiles
      have hsame : result.map ([] ++ ·) = result := by cases result <;> rfl
      rw [hsame] at hresult
      rw [hends.2] at hvisits
      refine ⟨hmode, visited, result, hvisits, congrArg Attempt.ofExcept hresult, hlater.trans ?_⟩
      exact congrArg (· ++ visited) hseen

end Session

end Engraver
