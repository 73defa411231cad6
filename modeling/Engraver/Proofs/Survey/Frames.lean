import Engraver.Survey.Photograph

/-!
# Visits and frames

A visit to a tile ends at the tile, or adds one frame to those of the visits before. So a survey that succeeds has one
frame for each tile in order, and it does the same on machines that answer alike.
-/

namespace Engraver

namespace Surveyor

variable {α S ε I : Type} [Scalar α] {m : Surveyor α S ε I} {offset : Point α} {frames : List (Frame I α)}
  {tile : Tile α} {s there after : S} {e : ε}

/-! ## One visit -/

theorem visit_of_stuck (tiles : List (Tile α)) (h : m.goTo tile.x tile.y s = (.error e, there)) :
    m.visit offset frames s (tile :: tiles) = (.error e, there) := by
  rw [visit, h]

theorem visit_of_blind (tiles : List (Tile α)) (hgo : m.goTo tile.x tile.y s = (.ok (), there))
    (hcapture : m.capture there = (.error e, after)) :
    m.visit offset frames s (tile :: tiles) = (.error e, after) := by
  rw [visit, hgo]
  dsimp only
  rw [hcapture]

theorem visit_of_captured {picture : I} (tiles : List (Tile α)) (hgo : m.goTo tile.x tile.y s = (.ok (), there))
    (hcapture : m.capture there = (.ok picture, after)) :
    m.visit offset frames s (tile :: tiles) =
      m.visit offset (frames ++ [⟨tile, ⟨tile.x + offset.x, tile.y + offset.y⟩, picture⟩]) after tiles := by
  rw [visit, hgo]
  dsimp only
  rw [hcapture]

end Surveyor

/-! ## Frames -/

/-- One frame for each tile in order, with what the camera looked at. -/
structure FramesOf {α I : Type} [Scalar α] (offset : Point α) (tiles : List (Tile α)) (frames : List (Frame I α)) :
    Prop where
  tiles : frames.map Frame.tile = tiles
  centres : ∀ f ∈ frames, f.centre = ⟨f.tile.x + offset.x, f.tile.y + offset.y⟩

namespace Surveyor

variable {α S ε I : Type} [Scalar α] (m : Surveyor α S ε I) {offset : Point α}

theorem visit_framesOf {before tiles : List (Tile α)} {frames result : List (Frame I α)} {s s' : S}
    (hframes : FramesOf offset before frames) (h : m.visit offset frames s tiles = (.ok result, s')) :
    FramesOf offset (before ++ tiles) result := by
  induction tiles generalizing before frames s with
  | nil =>
    cases h
    rwa [List.append_nil]
  | cons tile tiles ih =>
    rcases hgo : m.goTo tile.x tile.y s with ⟨e | _, there⟩
    · rw [visit_of_stuck tiles hgo] at h
      cases h
    rcases hcapture : m.capture there with ⟨e | picture, after⟩
    · rw [visit_of_blind tiles hgo hcapture] at h
      cases h
    rw [visit_of_captured tiles hgo hcapture] at h
    rw [List.append_cons]
    refine ih ⟨?_, ?_⟩ h
    · rw [List.map_append, hframes.tiles]
      rfl
    · intro f hf
      rcases List.mem_append.mp hf with hf | hf
      · exact hframes.centres f hf
      · rw [List.mem_singleton.mp hf]

/-- A survey that succeeds has one frame for each tile of its area. -/
theorem survey_framesOf {area : Area α} {fov overlap : Point α} {s s' : S} {frames : List (Frame I α)}
    (h : m.survey area fov overlap offset s = (.ok frames, s')) :
    ∃ t, Tiling.cover area fov overlap = .ok t ∧ FramesOf offset t.tiles frames := by
  unfold survey at h
  cases hcover : Tiling.cover area fov overlap with
  | panicked =>
    rw [hcover] at h
    cases h
  | error fault =>
    rw [hcover] at h
    cases h
  | ok t =>
    rw [hcover] at h
    dsimp only at h
    rcases hprepare : m.prepare s with ⟨_ | _, ready⟩ <;> rw [hprepare] at h
    · cases h
    · dsimp only at h
      rcases hvisit : m.visit offset [] ready t.tiles with ⟨_ | result, last⟩ <;> rw [hvisit] at h <;> cases h
      have hnone : FramesOf offset [] ([] : List (Frame I α)) := ⟨rfl, by simp⟩
      exact ⟨t, rfl, m.visit_framesOf hnone hvisit⟩

end Surveyor

/-! ## Surveys seen through a map -/

namespace Surveyor

variable {α S S' ε I : Type} [Scalar α] {m : Surveyor α S ε I} {m' : Surveyor α S' ε I} {f : S → S'}

/-- `f` shows one machine with a camera as another that answers alike. -/
structure Likeness (m : Surveyor α S ε I) (m' : Surveyor α S' ε I) (f : S → S') : Prop where
  refuse : m'.refuse = m.refuse
  prepare : ∀ s, m'.prepare (f s) = ((m.prepare s).1, f (m.prepare s).2)
  goTo : ∀ x y s, m'.goTo x y (f s) = ((m.goTo x y s).1, f (m.goTo x y s).2)
  capture : ∀ s, m'.capture (f s) = ((m.capture s).1, f (m.capture s).2)

theorem Likeness.visit (h : Likeness m m' f) (offset : Point α) (frames : List (Frame I α)) (s : S)
    (tiles : List (Tile α)) : m'.visit offset frames (f s) tiles =
      ((m.visit offset frames s tiles).1, f (m.visit offset frames s tiles).2) := by
  induction tiles generalizing frames s with
  | nil => rfl
  | cons tile tiles ih =>
    rw [Surveyor.visit, Surveyor.visit, h.goTo]
    rcases m.goTo tile.x tile.y s with ⟨_ | _, there⟩
    · rfl
    dsimp only
    rw [h.capture]
    rcases m.capture there with ⟨_ | picture, after⟩
    · rfl
    · exact ih _ _

theorem Likeness.survey (h : Likeness m m' f) (area : Area α) (fov overlap offset : Point α) (s : S) :
    m'.survey area fov overlap offset (f s) =
      ((m.survey area fov overlap offset s).1, f (m.survey area fov overlap offset s).2) := by
  rw [Surveyor.survey, Surveyor.survey, h.refuse, h.prepare]
  cases Tiling.cover area fov overlap with
  | panicked => rfl
  | error fault => rfl
  | ok t =>
    rcases m.prepare s with ⟨_ | _, ready⟩
    · rfl
    · dsimp only
      rw [h.visit]

end Surveyor

/-! ## Sessions with a camera -/

namespace Session

variable {C D I : Type} [Driver D] [Camera C D I] (feedrate : Float) (s : Session D) (camera : C)

theorem surveyor_goTo (x y : Float) :
    (surveyor feedrate : Surveyor Float (Session D × C) SurveyError I).goTo x y (s, camera) =
      ((s.moveTo x y (some feedrate)).1.mapError .session, (s.moveTo x y (some feedrate)).2, camera) := by
  unfold surveyor
  dsimp only
  rcases s.moveTo x y (some feedrate) with ⟨_ | _, after⟩ <;> rfl

theorem surveyor_prepare :
    (surveyor feedrate : Surveyor Float (Session D × C) SurveyError I).prepare (s, camera) =
      (s.ensureHomed.1.mapError .session,
        if s.ensureHomed.1.isOk then s.ensureHomed.2.setAbsolute else s.ensureHomed.2, camera) := by
  unfold surveyor
  dsimp only
  rcases s.ensureHomed with ⟨_ | _, after⟩ <;> rfl

end Session

end Engraver
