import Engraver.Proofs.Grid
import Engraver.Proofs.Motion.Limit
import Engraver.Proofs.Number.Words
import Engraver.Survey.Tiles

/-!
# Tiles cover their area

In exact arithmetic the tiles of an area stand in its rows and columns one pitch apart, and every place in the
area is close enough to the centre of one of them to be on its picture.
-/

namespace Engraver

section Edges

variable {α : Type} [Scalar α]

/-- The edges of an area are finite, and none lies behind the opposite one. -/
@[mk_iff]
structure Area.IsOrdered (area : Area α) : Prop where
  finiteX : Scalar.isFinite area.edges.xmin = true ∧ Scalar.isFinite area.edges.xmax = true
  finiteY : Scalar.isFinite area.edges.ymin = true ∧ Scalar.isFinite area.edges.ymax = true
  x : ¬ area.edges.xmax < area.edges.xmin
  y : ¬ area.edges.ymax < area.edges.ymin

theorem Area.bounds_of_ordered {area : Area α} (h : area.IsOrdered) : area.bounds? = .ok area.edges := by
  obtain ⟨⟨hxmin, hxmax⟩, ⟨hymin, hymax⟩, hx, hy⟩ := h
  unfold bounds?
  dsimp only
  rw [hxmin, hymin, hxmax, hymax, if_neg (by simp [hx, hy])]

theorem Area.bounds_of_disordered {area : Area α} (h : ¬ area.IsOrdered) : area.bounds? = .error (.badArea area) := by
  rw [isOrdered_iff] at h
  unfold bounds?
  dsimp only
  rw [if_pos]
  simp only [Bool.or_eq_true, Bool.not_eq_true', Bool.and_eq_false_iff, decide_eq_true_iff]
  grind

end Edges

theorem Area.bounds_real (area : Area ℝ) : area.bounds? =
    if area.edges.xmax < area.edges.xmin ∨ area.edges.ymax < area.edges.ymin then .error (.badArea area)
    else .ok area.edges := by
  unfold bounds?
  simp [Scalar.isFinite]

theorem Area.bounds_ordered {area : Area ℝ} {b : Bounds ℝ} (h : area.bounds? = .ok b) :
    b.xmin ≤ b.xmax ∧ b.ymin ≤ b.ymax := by
  rw [bounds_real] at h
  split_ifs at h with hswapped
  cases h
  exact ⟨not_lt.mp fun hx => hswapped (.inl hx), not_lt.mp fun hy => hswapped (.inr hy)⟩

namespace Tiling

/-! ## Along one edge -/

section Edge

variable {edge far pitch : ℝ}

theorem centre_real (edge pitch : ℝ) (number : Nat) :
    centre edge pitch number = edge + (number + 1 / 2) * pitch := by
  change edge + (((number : ℤ) : ℝ) + (0.5 : ℝ)) * pitch = _
  norm_num

theorem centre_sub_centre (edge pitch : ℝ) (i j : Nat) :
    centre edge pitch j - centre edge pitch i = (j - i) * pitch := by
  rw [centre_real, centre_real]
  ring

/-- Along an extent there is one tile more than whole pitches, if a counter holds as many. -/
theorem countAlong_real {extent : ℝ} (hextent : 0 ≤ extent) (hpitch : 0 < pitch) (count : Nat) :
    countAlong extent pitch = some count ↔ (count : ℤ) = ⌊extent / pitch⌋ + 1 ∧ count ≤ Double.maxCount := by
  obtain ⟨n, hn⟩ := Int.eq_ofNat_of_zero_le (Int.floor_nonneg.mpr (div_nonneg hextent hpitch.le))
  have hmax : Double.maxCount = 2 ^ 64 - 1 := rfl
  have hcut : (Scalar.count (extent / pitch)).toNat = min n Double.maxCount := by
    change (UInt64.ofNat (min ⌊extent / pitch⌋.toNat Double.maxCount)).toNat = _
    rw [hn, UInt64.toNat_ofNat']
    omega
  rw [countAlong, hcut, hn]
  rcases Nat.lt_or_ge (min n Double.maxCount + 1) (2 ^ 64) with hfits | hmany
  · rw [Word.count?_eq hfits, Option.some_inj]
    omega
  · rw [Word.count?_eq_none hmany]
    exact iff_of_false (by simp) (by omega)

theorem exists_countAlong {extent : ℝ} (hextent : 0 ≤ extent) (hpitch : 0 < pitch)
    (hfits : ⌊extent / pitch⌋ + 1 ≤ Double.maxCount) :
    ∃ count : Nat, countAlong extent pitch = some count ∧ (count : ℤ) = ⌊extent / pitch⌋ + 1 ∧ 1 ≤ count := by
  obtain ⟨n, hn⟩ := Int.eq_ofNat_of_zero_le (Int.floor_nonneg.mpr (div_nonneg hextent hpitch.le))
  have hcount : ((n + 1 : Nat) : ℤ) = ⌊extent / pitch⌋ + 1 := by omega
  exact ⟨n + 1, (countAlong_real hextent hpitch _).mpr ⟨hcount, by omega⟩, hcount, Nat.succ_pos n⟩

theorem exists_centre_near (hpitch : 0 < pitch) {x : ℝ} (hedge : edge ≤ x) (hfar : x ≤ far) :
    ∃ number : Nat, (number : ℤ) ≤ ⌊(far - edge) / pitch⌋ ∧ |x - centre edge pitch number| ≤ pitch / 2 := by
  have hfloor : 0 ≤ ⌊(x - edge) / pitch⌋ := Int.floor_nonneg.mpr (div_nonneg (sub_nonneg.mpr hedge) hpitch.le)
  obtain ⟨number, hnumber⟩ := Int.eq_ofNat_of_zero_le hfloor
  refine ⟨number, ?_, ?_⟩
  · rw [← hnumber]
    exact Int.floor_le_floor (by gcongr)
  · have hbounds := Int.floor_eq_iff.mp hnumber
    rw [le_div_iff₀ hpitch, div_lt_iff₀ hpitch, Int.cast_natCast] at hbounds
    rw [centre_real, abs_le]
    constructor <;> linarith

theorem centre_begins (hpitch : 0 < pitch) {number : Nat} (h : (number : ℤ) ≤ ⌊(far - edge) / pitch⌋) :
    centre edge pitch number - pitch / 2 ≤ far := by
  have hle := Int.le_floor.mp h
  rw [Int.cast_natCast, le_div_iff₀ hpitch] at hle
  rw [centre_real]
  linarith

end Edge

/-! ## The grid -/

section Grid

variable {α : Type} [Scalar α] (corner pitch : Point α) (rows cols : Nat)

def tileAt (row col : Nat) : Tile α :=
  ⟨row, col, centre corner.x pitch.x col, centre corner.y pitch.y row⟩

theorem grid_eq_flatten : grid corner pitch rows cols =
    ((List.range rows).map fun row => (List.range cols).map (tileAt corner pitch row)).flatten :=
  List.flatMap_def

theorem length_grid : (grid corner pitch rows cols).length = rows * cols := by
  have hwidth : ∀ line ∈ (List.range rows).map fun row => (List.range cols).map (tileAt corner pitch row),
      line.length = cols := by simp
  rw [grid_eq_flatten, length_flatten_rows hwidth, List.length_map, List.length_range, Nat.mul_comm]

theorem getElem?_grid {row col : Nat} (hrow : row < rows) (hcol : col < cols) :
    (grid corner pitch rows cols)[row * cols + col]? = some (tileAt corner pitch row col) := by
  rw [grid_eq_flatten, getElem?_flatten_rows (by simp) row col hcol]
  simp [hrow, hcol]

theorem mem_grid_iff (tile : Tile α) : tile ∈ grid corner pitch rows cols ↔
    ∃ row < rows, ∃ col < cols, tile = tileAt corner pitch row col := by
  simp [grid, tileAt, eq_comm]

end Grid

/-! ## The ends of planning -/

section Ends

variable {α : Type} [Scalar α] {area : Area α} {b : Bounds α} {fov overlap : Point α}

theorem cover_of_fault {fault : AreaFault α} (h : area.bounds? = .error fault) : cover area fov overlap = .error fault := by
  rw [cover, h]

theorem cover_of_pitch (hb : area.bounds? = .ok b)
    (hpitch : ¬ ((0.0 : α) < (pitch fov overlap).x ∧ (0.0 : α) < (pitch fov overlap).y)) :
    cover area fov overlap = .error (.badPitch (pitch fov overlap)) := by
  rw [cover, hb]
  exact if_neg hpitch

theorem cover_of_overflow (hb : area.bounds? = .ok b)
    (hpitch : (0.0 : α) < (pitch fov overlap).x ∧ (0.0 : α) < (pitch fov overlap).y)
    (h : countAlong (b.xmax - b.xmin) (pitch fov overlap).x = none ∨
      countAlong (b.ymax - b.ymin) (pitch fov overlap).y = none) : cover area fov overlap = .panicked := by
  rw [cover, hb]
  dsimp only
  rw [if_pos hpitch]
  rcases h with h | h
  · rw [h]
  · rw [h]
    split
    · contradiction
    · rfl

theorem cover_of_counts (hb : area.bounds? = .ok b)
    (hpitch : (0.0 : α) < (pitch fov overlap).x ∧ (0.0 : α) < (pitch fov overlap).y) {rows cols : Nat}
    (hcols : countAlong (b.xmax - b.xmin) (pitch fov overlap).x = some cols)
    (hrows : countAlong (b.ymax - b.ymin) (pitch fov overlap).y = some rows) :
    cover area fov overlap = .ok ⟨rows, cols, grid ⟨b.xmin, b.ymin⟩ (pitch fov overlap) rows cols⟩ := by
  rw [cover, hb]
  dsimp only
  rw [if_pos hpitch, hcols, hrows]

theorem of_cover (hb : area.bounds? = .ok b)
    (hpitch : (0.0 : α) < (pitch fov overlap).x ∧ (0.0 : α) < (pitch fov overlap).y) {t : Tiling α}
    (h : cover area fov overlap = .ok t) :
    countAlong (b.xmax - b.xmin) (pitch fov overlap).x = some t.cols ∧
      countAlong (b.ymax - b.ymin) (pitch fov overlap).y = some t.rows ∧
      t.tiles = grid ⟨b.xmin, b.ymin⟩ (pitch fov overlap) t.rows t.cols := by
  cases hcols : countAlong (b.xmax - b.xmin) (pitch fov overlap).x with
  | none =>
    rw [cover_of_overflow hb hpitch (.inl hcols)] at h
    cases h
  | some cols =>
    cases hrows : countAlong (b.ymax - b.ymin) (pitch fov overlap).y with
    | none =>
      rw [cover_of_overflow hb hpitch (.inr hrows)] at h
      cases h
    | some rows =>
      rw [cover_of_counts hb hpitch hcols hrows] at h
      cases h
      exact ⟨rfl, rfl, rfl⟩

end Ends

/-! ## Distances between tiles -/

theorem sub_of_mem_grid {corner pitch : Point ℝ} {rows cols : Nat} {tile tile' : Tile ℝ}
    (h : tile ∈ grid corner pitch rows cols) (h' : tile' ∈ grid corner pitch rows cols) :
    tile'.x - tile.x = (tile'.col - tile.col) * pitch.x ∧ tile'.y - tile.y = (tile'.row - tile.row) * pitch.y := by
  obtain ⟨row, -, col, -, rfl⟩ := (mem_grid_iff _ _ _ _ tile).mp h
  obtain ⟨row', -, col', -, rfl⟩ := (mem_grid_iff _ _ _ _ tile').mp h'
  exact ⟨centre_sub_centre _ _ col col', centre_sub_centre _ _ row row'⟩

section Whole

variable {b : Bounds ℝ} {pitch : Point ℝ} {rows cols : Nat} (hx : 0 < pitch.x) (hy : 0 < pitch.y)
  (hcols : (cols : ℤ) = ⌊(b.xmax - b.xmin) / pitch.x⌋ + 1)
  (hrows : (rows : ℤ) = ⌊(b.ymax - b.ymin) / pitch.y⌋ + 1)
include hx hy hcols hrows

theorem exists_tile_near {p : Point ℝ} (hpx : b.xmin ≤ p.x ∧ p.x ≤ b.xmax) (hpy : b.ymin ≤ p.y ∧ p.y ≤ b.ymax) :
    ∃ tile ∈ grid ⟨b.xmin, b.ymin⟩ pitch rows cols,
      |p.x - tile.x| ≤ pitch.x / 2 ∧ |p.y - tile.y| ≤ pitch.y / 2 := by
  obtain ⟨col, hcol, hnearx⟩ := exists_centre_near hx hpx.1 hpx.2
  obtain ⟨row, hrow, hneary⟩ := exists_centre_near hy hpy.1 hpy.2
  exact ⟨tileAt _ pitch row col, (mem_grid_iff _ _ _ _ _).mpr ⟨row, by omega, col, by omega, rfl⟩, hnearx, hneary⟩

theorem tile_begins {tile : Tile ℝ} (h : tile ∈ grid ⟨b.xmin, b.ymin⟩ pitch rows cols) :
    tile.x - pitch.x / 2 ≤ b.xmax ∧ tile.y - pitch.y / 2 ≤ b.ymax := by
  obtain ⟨row, hrow, col, hcol, rfl⟩ := (mem_grid_iff _ _ _ _ tile).mp h
  have hcol : (col : ℤ) ≤ ⌊(b.xmax - b.xmin) / pitch.x⌋ := by omega
  have hrow : (row : ℤ) ≤ ⌊(b.ymax - b.ymin) / pitch.y⌋ := by omega
  exact ⟨centre_begins hx hcol, centre_begins hy hrow⟩

end Whole

/-! ## The whole area -/

theorem pitch_real (fov overlap : Point ℝ) :
    Tiling.pitch fov overlap = ⟨fov.x * (1 - overlap.x), fov.y * (1 - overlap.y)⟩ := by
  change (⟨fov.x * ((1.0 : ℝ) - overlap.x), fov.y * ((1.0 : ℝ) - overlap.y)⟩ : Point ℝ) = _
  norm_num

theorem pitch_bounds {fov overlap : ℝ} (hfov : 0 < fov) (hoverlap : 0 ≤ overlap ∧ overlap < 1) :
    0 < fov * (1 - overlap) ∧ fov * (1 - overlap) ≤ fov :=
  ⟨mul_pos hfov (by linarith), mul_le_of_le_one_right hfov.le (by linarith)⟩

theorem pitch_positive {fov overlap : Point ℝ} (hfov : 0 < fov.x ∧ 0 < fov.y)
    (hoverlap : (0 ≤ overlap.x ∧ overlap.x < 1) ∧ (0 ≤ overlap.y ∧ overlap.y < 1)) :
    (0.0 : ℝ) < (Tiling.pitch fov overlap).x ∧ (0.0 : ℝ) < (Tiling.pitch fov overlap).y := by
  have hzero : (0.0 : ℝ) = 0 := by norm_num
  rw [hzero, pitch_real]
  exact ⟨(pitch_bounds hfov.1 hoverlap.1).1, (pitch_bounds hfov.2 hoverlap.2).1⟩

/-- **Tiles cover their area.** In exact arithmetic an area with its edges in order, photographed with a positive
field of view and overlaps from 0 up to below 1, has a tiling, as long as a counter holds the tiles of a row and
of a column. The tiles stand row by row, in as many columns and rows as whole pitches fit into the area, and one
more of each. Two of them are as many pitches apart as their columns and rows, so neighbours are one pitch apart.
Every place in the area is within half a field of view of some centre, in both directions, and no tile begins
behind the far edges. -/
theorem tiles_cover_area (area : Area ℝ) (b : Bounds ℝ) (hb : area.bounds? = .ok b) (fov overlap : Point ℝ)
    (hfov : 0 < fov.x ∧ 0 < fov.y)
    (hoverlap : (0 ≤ overlap.x ∧ overlap.x < 1) ∧ (0 ≤ overlap.y ∧ overlap.y < 1)) :
    let pitch : Point ℝ := ⟨fov.x * (1 - overlap.x), fov.y * (1 - overlap.y)⟩
    let cols := ⌊(b.xmax - b.xmin) / pitch.x⌋ + 1
    let rows := ⌊(b.ymax - b.ymin) / pitch.y⌋ + 1
    cols ≤ Double.maxCount → rows ≤ Double.maxCount →
    ∃ t, cover area fov overlap = .ok t ∧
      (t.cols = cols ∧ t.rows = rows ∧ 1 ≤ t.cols ∧ 1 ≤ t.rows) ∧
      (t.tiles.length = t.rows * t.cols ∧ ∀ row < t.rows, ∀ col < t.cols,
        ∃ tile, t.tiles[row * t.cols + col]? = some tile ∧ tile.row = row ∧ tile.col = col) ∧
      (∀ tile ∈ t.tiles, ∀ tile' ∈ t.tiles,
        tile'.x - tile.x = (tile'.col - tile.col) * pitch.x ∧
          tile'.y - tile.y = (tile'.row - tile.row) * pitch.y) ∧
      (∀ p : Point ℝ, b.xmin ≤ p.x ∧ p.x ≤ b.xmax → b.ymin ≤ p.y ∧ p.y ≤ b.ymax →
        ∃ tile ∈ t.tiles, |p.x - tile.x| ≤ fov.x / 2 ∧ |p.y - tile.y| ≤ fov.y / 2) ∧
      ∀ tile ∈ t.tiles, tile.x - pitch.x / 2 ≤ b.xmax ∧ tile.y - pitch.y / 2 ≤ b.ymax := by
  intro pitch cols rows hcols hrows
  obtain ⟨hx, hy⟩ := Area.bounds_ordered hb
  obtain ⟨hpitchx, hnarrow⟩ : 0 < pitch.x ∧ pitch.x ≤ fov.x := pitch_bounds hfov.1 hoverlap.1
  obtain ⟨hpitchy, hlow⟩ : 0 < pitch.y ∧ pitch.y ≤ fov.y := pitch_bounds hfov.2 hoverlap.2
  have hpitch : Tiling.pitch fov overlap = pitch := pitch_real fov overlap
  obtain ⟨m, hm, hacross, hcol⟩ := exists_countAlong (sub_nonneg.mpr hx) hpitchx hcols
  obtain ⟨n, hn, hdown, hrow⟩ := exists_countAlong (sub_nonneg.mpr hy) hpitchy hrows
  rw [← hpitch] at hm hn
  have hcover := cover_of_counts hb (pitch_positive hfov hoverlap) hm hn
  rw [hpitch] at hcover
  refine ⟨_, hcover, ⟨hacross, hdown, hcol, hrow⟩, ⟨length_grid _ _ _ _, ?_⟩, ?_, ?_, ?_⟩
  · exact fun row hrow col hcol => ⟨_, getElem?_grid _ _ _ _ hrow hcol, rfl, rfl⟩
  · exact fun tile htile tile' htile' => sub_of_mem_grid htile htile'
  · intro p hpx hpy
    obtain ⟨tile, htile, hnearx, hneary⟩ := exists_tile_near hpitchx hpitchy hacross hdown hpx hpy
    exact ⟨tile, htile, hnearx.trans (by linarith), hneary.trans (by linarith)⟩
  · exact fun tile htile => tile_begins hpitchx hpitchy hacross hdown htile

/-- Two whole pitches fit into the width exactly, and none into the height. -/
theorem tiles_cover_strip :
    ∃ t, cover (.bounds 10 0 20 4 : Area ℝ) ⟨10, 10⟩ ⟨1 / 2, 1 / 2⟩ = .ok t ∧
      (t.cols = 3 ∧ t.rows = 1 ∧ t.tiles.length = 3) ∧
      ∃ tile ∈ t.tiles, |20 - tile.x| ≤ 10 / 2 ∧ |4 - tile.y| ≤ 10 / 2 := by
  have hb : (.bounds 10 0 20 4 : Area ℝ).bounds? = .ok ⟨10, 0, 20, 4⟩ := by
    rw [Area.bounds_real, if_neg]
    · rfl
    · norm_num [Area.edges]
  have hcols : ⌊((20 : ℝ) - 10) / (10 * (1 - 1 / 2))⌋ = 2 := by norm_num
  have hrows : ⌊((4 : ℝ) - 0) / (10 * (1 - 1 / 2))⌋ = 0 := by norm_num
  obtain ⟨t, hcover, ⟨hacross, hdown, -, -⟩, ⟨hlength, -⟩, -, hnear, -⟩ :=
    tiles_cover_area _ _ hb ⟨10, 10⟩ ⟨1 / 2, 1 / 2⟩ (by norm_num) (by norm_num)
      (by rw [hcols]; decide) (by rw [hrows]; decide)
  dsimp only at hacross hdown hnear
  rw [hcols] at hacross
  rw [hrows] at hdown
  have hthree : t.cols = 3 := by omega
  have hone : t.rows = 1 := by omega
  rw [hthree, hone] at hlength
  exact ⟨t, hcover, ⟨hthree, hone, hlength⟩, hnear ⟨20, 4⟩ (by norm_num) (by norm_num)⟩

end Tiling

end Engraver
