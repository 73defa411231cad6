import Mathlib
import Engraver.Proofs.Session.Drift
import Engraver.Proofs.Survey.Cover
import Engraver.Proofs.Survey.Frames
import Engraver.Settings.Check

/-!
# What the pictures of an area show

A survey takes the centres of the tiles for places of the head, but the camera looks at a place beside the head.
So in exact arithmetic the pictures show the area displaced by the offset of the camera, and the area itself only
if the offset is small.
-/

namespace Engraver

/-! ## Along one edge -/

namespace Tiling

/-- An offset with which the first picture does not begin behind the near edge, and the last one does not end in front
of the far edge. -/
structure OffsetFits (extent pitch fov offset : ℝ) : Prop where
  ahead : offset ≤ (fov - pitch) / 2
  back : extent - (⌊extent / pitch⌋ + 1 / 2) * pitch - fov / 2 ≤ offset

section Edge

variable {edge far pitch fov offset : ℝ} {count : Nat}

theorem centre_le {i j : Nat} (hpitch : 0 < pitch) (h : i ≤ j) : centre edge pitch i ≤ centre edge pitch j := by
  have hij : (i : ℝ) ≤ j := Nat.cast_le.mpr h
  rw [centre_real, centre_real]
  gcongr

theorem exists_shown (hpitch : 0 < pitch) (hfov : pitch ≤ fov) (hedge : edge ≤ far)
    (hcount : (count : ℤ) = ⌊(far - edge) / pitch⌋ + 1) (hfits : OffsetFits (far - edge) pitch fov offset) {x : ℝ}
    (hx : edge ≤ x ∧ x ≤ far) : ∃ number < count, |x - (centre edge pitch number + offset)| ≤ fov / 2 := by
  obtain ⟨hahead, hback⟩ := hfits
  obtain ⟨last, hlast⟩ := Int.eq_ofNat_of_zero_le (Int.floor_nonneg.mpr (div_nonneg (sub_nonneg.mpr hedge) hpitch.le))
  have hbegins : centre edge pitch last - pitch / 2 ≤ far := centre_begins hpitch hlast.ge
  rw [hlast, Int.cast_natCast] at hback
  rcases lt_or_ge (x - offset) edge with hbefore | hbehind
  · refine ⟨0, by omega, ?_⟩
    rw [centre_real, abs_le]
    constructor <;> norm_num <;> linarith
  · rcases lt_or_ge far (x - offset) with hpast | hwithin
    · refine ⟨last, by omega, ?_⟩
      rw [centre_real] at hbegins ⊢
      rw [abs_le]
      constructor <;> linarith
    · obtain ⟨number, hnumber, hnear⟩ := exists_centre_near hpitch hbehind hwithin
      refine ⟨number, by omega, ?_⟩
      rw [← sub_sub, sub_right_comm]
      linarith

theorem edge_shown_iff (hpitch : 0 < pitch) (hfov : pitch ≤ fov) (hedge : edge ≤ far)
    (hcount : (count : ℤ) = ⌊(far - edge) / pitch⌋ + 1) :
    (∀ x, edge ≤ x ∧ x ≤ far → ∃ number < count, |x - (centre edge pitch number + offset)| ≤ fov / 2) ↔
      OffsetFits (far - edge) pitch fov offset := by
  refine ⟨fun h => ⟨?_, ?_⟩, fun hfits x => exists_shown hpitch hfov hedge hcount hfits⟩
  · obtain ⟨number, -, hnear⟩ := h edge ⟨le_rfl, hedge⟩
    have hfirst : centre edge pitch 0 ≤ centre edge pitch number := centre_le hpitch number.zero_le
    rw [centre_real] at hfirst
    norm_num at hfirst
    linarith [(abs_le.mp hnear).1]
  · obtain ⟨number, hnumber, hnear⟩ := h far ⟨hedge, le_rfl⟩
    have hlast : centre edge pitch number - pitch / 2 ≤ centre edge pitch (count - 1) - pitch / 2 := by
      gcongr
      exact centre_le hpitch (by omega)
    have hfloor : (⌊(far - edge) / pitch⌋ : ℝ) = (count - 1 : Nat) := by
      have : ⌊(far - edge) / pitch⌋ = ((count - 1 : Nat) : ℤ) := by omega
      exact_mod_cast this
    rw [hfloor]
    rw [centre_real edge pitch (count - 1)] at hlast
    linarith [(abs_le.mp hnear).2]

theorem countAlong_of_lt_pitch {extent : ℝ} (hextent : 0 ≤ extent) (h : extent < pitch) :
    countAlong extent pitch = some 1 := by
  have hpitch := hextent.trans_lt h
  have hfloor : ⌊extent / pitch⌋ = 0 :=
    Int.floor_eq_zero_iff.mpr ⟨div_nonneg hextent hpitch.le, (div_lt_one hpitch).mpr h⟩
  rw [countAlong_real hextent hpitch, hfloor]
  decide

end Edge

end Tiling

/-! ## The whole area -/

def Bounds.Contains (b : Bounds ℝ) (p : Point ℝ) : Prop :=
  (b.xmin ≤ p.x ∧ p.x ≤ b.xmax) ∧ (b.ymin ≤ p.y ∧ p.y ≤ b.ymax)

/-- A place on a picture: within half a field of view of what the camera looked at, in both directions. -/
structure Frame.Shows {I : Type} (fov : Point ℝ) (f : Frame I ℝ) (p : Point ℝ) : Prop where
  x : |p.x - f.centre.x| ≤ fov.x / 2
  y : |p.y - f.centre.y| ≤ fov.y / 2

namespace Tiling

section Whole

variable {I : Type} {corner pitch offset fov : Point ℝ} {rows cols : Nat} {frames : List (Frame I ℝ)}
  (hframes : FramesOf offset (grid corner pitch rows cols) frames)
include hframes

theorem exists_shows_iff (p : Point ℝ) : (∃ f ∈ frames, f.Shows fov p) ↔
    (∃ col < cols, |p.x - (centre corner.x pitch.x col + offset.x)| ≤ fov.x / 2) ∧
      ∃ row < rows, |p.y - (centre corner.y pitch.y row + offset.y)| ≤ fov.y / 2 := by
  constructor
  · rintro ⟨f, hf, hshows⟩
    have htile : f.tile ∈ grid corner pitch rows cols := hframes.tiles ▸ List.mem_map_of_mem hf
    obtain ⟨row, hrow, col, hcol, htile⟩ := (mem_grid_iff _ _ _ _ _).mp htile
    have hcentre := hframes.centres f hf
    rw [htile] at hcentre
    obtain ⟨hx, hy⟩ := hshows
    rw [hcentre] at hx hy
    exact ⟨⟨col, hcol, hx⟩, row, hrow, hy⟩
  · rintro ⟨⟨col, hcol, hx⟩, row, hrow, hy⟩
    have htile : tileAt corner pitch row col ∈ frames.map Frame.tile := by
      rw [hframes.tiles]
      exact (mem_grid_iff _ _ _ _ _).mpr ⟨row, hrow, col, hcol, rfl⟩
    obtain ⟨f, hf, htile⟩ := List.mem_map.mp htile
    have hcentre := hframes.centres f hf
    rw [htile] at hcentre
    refine ⟨f, hf, ?_, ?_⟩
    · rw [hcentre]
      exact hx
    · rw [hcentre]
      exact hy

end Whole

end Tiling

namespace Surveyor

open Tiling (OffsetFits)

/-- **What the pictures show.** In exact arithmetic, let an area with its edges in order be surveyed with a positive
field of view, overlaps from 0 up to below 1, and any offset of the camera. If the survey succeeds, the pictures
show all of the area displaced by the offset. So they show all of the area itself just if the offset is so small in
both directions that the first and the last pictures still reach the edges: at most half of what neighbouring
pictures have in common, and not so far below zero that the far edge is missed. -/
theorem pictures_cover_area_iff {S ε I : Type} (m : Surveyor ℝ S ε I) (area : Area ℝ) (b : Bounds ℝ)
    (hb : area.bounds? = .ok b) (fov overlap offset : Point ℝ) (hfov : 0 < fov.x ∧ 0 < fov.y)
    (hoverlap : (0 ≤ overlap.x ∧ overlap.x < 1) ∧ (0 ≤ overlap.y ∧ overlap.y < 1)) (s s' : S)
    (frames : List (Frame I ℝ)) (h : m.survey area fov overlap offset s = (.ok frames, s')) :
    let pitch : Point ℝ := ⟨fov.x * (1 - overlap.x), fov.y * (1 - overlap.y)⟩
    (∀ p, b.Contains p → ∃ f ∈ frames, f.Shows fov ⟨p.x + offset.x, p.y + offset.y⟩) ∧
    ((∀ p, b.Contains p → ∃ f ∈ frames, f.Shows fov p) ↔
      OffsetFits (b.xmax - b.xmin) pitch.x fov.x offset.x ∧ OffsetFits (b.ymax - b.ymin) pitch.y fov.y offset.y) := by
  intro pitch
  obtain ⟨hx, hy⟩ := Area.bounds_ordered hb
  obtain ⟨hpitchx, hnarrow⟩ : 0 < pitch.x ∧ pitch.x ≤ fov.x := Tiling.pitch_bounds hfov.1 hoverlap.1
  obtain ⟨hpitchy, hlow⟩ : 0 < pitch.y ∧ pitch.y ≤ fov.y := Tiling.pitch_bounds hfov.2 hoverlap.2
  have hpitch : Tiling.pitch fov overlap = pitch := Tiling.pitch_real fov overlap
  obtain ⟨t, hcover, hframes⟩ := m.survey_framesOf h
  obtain ⟨hcols, hrows, htiles⟩ := Tiling.of_cover hb (Tiling.pitch_positive hfov hoverlap) hcover
  rw [hpitch] at hcols hrows htiles
  obtain ⟨hcols, -⟩ := (Tiling.countAlong_real (sub_nonneg.mpr hx) hpitchx t.cols).mp hcols
  obtain ⟨hrows, -⟩ := (Tiling.countAlong_real (sub_nonneg.mpr hy) hpitchy t.rows).mp hrows
  rw [htiles] at hframes
  have hshows (p : Point ℝ) : (∃ f ∈ frames, f.Shows fov p) ↔ _ := Tiling.exists_shows_iff hframes p
  refine ⟨fun p hp => ?_, fun hall => ?_, fun ⟨hfitx, hfity⟩ p hp => ?_⟩
  · obtain ⟨col, hcol, hnearx⟩ := Tiling.exists_centre_near hpitchx hp.1.1 hp.1.2
    obtain ⟨row, hrow, hneary⟩ := Tiling.exists_centre_near hpitchy hp.2.1 hp.2.2
    refine (hshows _).mpr ⟨⟨col, by omega, ?_⟩, row, by omega, ?_⟩
    · rw [add_sub_add_right_eq_sub]
      linarith
    · rw [add_sub_add_right_eq_sub]
      linarith
  · refine ⟨(Tiling.edge_shown_iff hpitchx hnarrow hx hcols).mp fun x hwithin => ?_,
      (Tiling.edge_shown_iff hpitchy hlow hy hrows).mp fun y hwithin => ?_⟩
    · exact ((hshows ⟨x, b.ymin⟩).mp (hall _ ⟨hwithin, le_rfl, hy⟩)).1
    · exact ((hshows ⟨b.xmin, y⟩).mp (hall _ ⟨⟨le_rfl, hx⟩, hwithin⟩)).2
  · exact (hshows p).mpr ⟨Tiling.exists_shown hpitchx hnarrow hx hcols hfitx hp.1,
      Tiling.exists_shown hpitchy hlow hy hrows hfity hp.2⟩

/-- A machine that does all that it is asked. -/
def willing : Surveyor ℝ Unit Unit Unit where
  refuse _ := ()
  prepare _ := (.ok (), ())
  goTo _ _ _ := (.ok (), ())
  capture _ := (.ok (), ())

/-- The camera looks thirty millimetres past the head and sees twelve of them. Its only picture of a square of one
millimetre shows the place thirty millimetres past the corner, but not all of the square. -/
theorem square_out_of_view :
    ∃ frames, willing.survey (.bounds 30 0 31 1) ⟨12, 16⟩ ⟨1 / 2, 1 / 2⟩ ⟨30, 0⟩ () = (.ok frames, ()) ∧
      frames.length = 1 ∧ (∃ f ∈ frames, f.Shows ⟨12, 16⟩ ⟨30 + 30, 0 + 0⟩) ∧
      ¬ ∀ p, Bounds.Contains ⟨30, 0, 31, 1⟩ p → ∃ f ∈ frames, f.Shows ⟨12, 16⟩ p := by
  have hb : (.bounds 30 0 31 1 : Area ℝ).bounds? = .ok ⟨30, 0, 31, 1⟩ := by
    rw [Area.bounds_real, if_neg]
    · rfl
    · norm_num [Area.edges]
  have hpitch : Tiling.pitch (⟨12, 16⟩ : Point ℝ) ⟨1 / 2, 1 / 2⟩ = ⟨6, 8⟩ := by
    rw [Tiling.pitch_real]
    norm_num
  have hcols : Tiling.countAlong (31 - 30 : ℝ) 6 = some 1 := Tiling.countAlong_of_lt_pitch (by norm_num) (by norm_num)
  have hrows : Tiling.countAlong (1 - 0 : ℝ) 8 = some 1 := Tiling.countAlong_of_lt_pitch (by norm_num) (by norm_num)
  have hpositive : (0.0 : ℝ) < (Tiling.pitch ⟨12, 16⟩ ⟨1 / 2, 1 / 2⟩).x ∧
      (0.0 : ℝ) < (Tiling.pitch ⟨12, 16⟩ ⟨1 / 2, 1 / 2⟩).y :=
    Tiling.pitch_positive (by norm_num) (by norm_num)
  have hcover := Tiling.cover_of_counts hb hpositive (by rwa [hpitch]) (by rwa [hpitch])
  obtain ⟨frames, hsurvey⟩ : ∃ frames,
      willing.survey (.bounds 30 0 31 1) ⟨12, 16⟩ ⟨1 / 2, 1 / 2⟩ ⟨30, 0⟩ () = (.ok frames, ()) := by
    unfold survey
    rw [hcover]
    exact ⟨_, rfl⟩
  have hlength : frames.length = 1 := by
    obtain ⟨t, ht, hframes⟩ := willing.survey_framesOf hsurvey
    rw [hcover] at ht
    cases ht
    rw [← List.length_map Frame.tile, hframes.tiles]
    rfl
  obtain ⟨hdisplaced, hall⟩ := willing.pictures_cover_area_iff _ _ hb ⟨12, 16⟩ ⟨1 / 2, 1 / 2⟩ ⟨30, 0⟩ (by norm_num)
    (by norm_num) () () frames hsurvey
  refine ⟨frames, hsurvey, hlength, ?_, fun hshown => ?_⟩
  · exact hdisplaced ⟨30, 0⟩ (by norm_num [Bounds.Contains])
  · obtain ⟨⟨hahead, -⟩, -⟩ := hall.mp hshown
    norm_num at hahead

end Surveyor

def Attempt.toOption {ε α : Type} : Attempt ε α → Option α
  | .ok a => some a
  | .error _ | .panicked => none

theorem Attempt.toOption_eq_some {ε α : Type} {r : Attempt ε α} {a : α} : r.toOption = some a ↔ r = .ok a := by
  cases r <;> simp [toOption]

namespace Session

open Double (value)

structure SteadyCamera where

instance {D : Type} : Camera SteadyCamera D Unit where
  capture camera driver := ⟨.ok (), camera, driver, false⟩

/-- A camera that looks two millimetres past the head and sees one of them. A new session that photographs a square of
half a millimetre sends the head over it, and no place in the square is within half a field of view of what the
camera looked at. -/
theorem photograph_beside_square :
    let settings : SurveySettings := { fov := ⟨1, 1⟩, overlap := ⟨0, 0⟩, offset := ⟨2, 0⟩ }
    let s : Session Handle := { onNewBoard with settings := { survey := settings } }
    ∃ f : Frame Unit, s.settings.check.isOk = true ∧
      (s.photograph (.bounds 2 0 2.5 0.5) settings SteadyCamera.mk).1 = .ok [f] ∧
      f.tile = ⟨0, 0, 2.5, 0.5⟩ ∧ f.centre = ⟨4.5, 0.5⟩ ∧
      ∀ x : ℚ, 2 ≤ x ∧ x ≤ 5 / 2 → value settings.fov.x / 2 < |x - value f.centre.x| := by
  intro settings s
  have hframes : (s.photograph (.bounds 2 0 2.5 0.5) settings SteadyCamera.mk).1.toOption.map
      (List.map fun f => (f.tile, f.centre)) = some [(⟨0, 0, 2.5, 0.5⟩, ⟨4.5, 0.5⟩)] := by
    decide +kernel
  obtain ⟨frames, hresult, hframes⟩ := Option.map_eq_some_iff.mp hframes
  obtain ⟨f, rfl, hf⟩ := List.map_eq_singleton_iff.mp hframes
  obtain ⟨htile, hcentre⟩ := Prod.mk.inj hf
  have hview : value settings.fov.x = 1 := by decide +kernel
  have hlooked : value (4.5 : Float) = 9 / 2 := by decide +kernel
  refine ⟨f, by decide +kernel, Attempt.toOption_eq_some.mp hresult, htile, hcentre, fun x hx => ?_⟩
  rw [hview, hcentre, hlooked, abs_sub_comm, lt_abs]
  left
  linarith [hx.2]

end Session

end Engraver
