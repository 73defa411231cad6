import Engraver.Proofs.Number.Exact
import Engraver.Proofs.Number.Words
import Engraver.Proofs.Raster.Sampling
import Engraver.Proofs.Survey.Cover

/-!
# Counting tiles

The whole pitches along an edge are cut off at the largest count, so it is the one tile more that may be too many.
-/

namespace Engraver

/-! ## Counts cut off at their end -/

namespace Double

open Float.Model
open Float.Model.UnpackedFloat (Sign)

/-- The first whole number that no 64-bit counter holds. -/
def counterEnd : Float := 18446744073709551616

theorem counterEnd_value : counterEnd.isFinite = true ∧ value counterEnd = 2 ^ 64 := by
  constructor <;> decide +kernel

theorem counterEnd_le_iff_value {x : Float} (hx : x.isFinite = true) : counterEnd ≤ x ↔ 2 ^ 64 ≤ value x := by
  rw [le_iff_value_le counterEnd_value.1 hx, counterEnd_value.2]

theorem counterEnd_le_iff_infinite {x : Float} (hx : ¬ x.isFinite = true) :
    counterEnd ≤ x ↔ x.toModel.unpack = .infinity .positive := by
  have hle : counterEnd ≤ x ↔ counterEnd.toModel.unpack.le x.toModel.unpack = true := decide_eq_true_iff
  obtain ⟨m, e, hm, hu⟩ := unpack_of_positive counterEnd_value.1 (by decide +kernel)
  change ¬ x.toModel.unpack.isFinite = true at hx
  rw [hle, hu]
  cases hx' : x.toModel.unpack with
  | infinity s => cases s <;> simp [UnpackedFloat.le, UnpackedFloat.compare]
  | notANumber => simp [UnpackedFloat.le, UnpackedFloat.compare]
  | _ => exact absurd (by rw [hx']; rfl) hx

theorem value_le_of_lt_end {x : Float} (hx : x.isFinite = true) (h : value x < 2 ^ 64) :
    value x ≤ 2 ^ 64 - 2 ^ 11 := by
  obtain ⟨e, hgrid⟩ := exists_grid hx
  by_contra! hgap
  have hcoarse : 11 ≤ e := by
    by_contra! hfine
    have hsmall : (2 : ℚ) ^ 53 * 2 ^ e ≤ 2 ^ 53 * 2 ^ (10 : ℤ) := by
      gcongr
      · exact one_le_two
      · omega
    have hfits := (le_abs_self (value x)).trans_lt hgrid.fits
    norm_num at hsmall hgap
    linarith
  obtain ⟨k, hk⟩ := hgrid.on.mono hcoarse
  rw [hk] at h hgap
  norm_num at h hgap
  -- So `k` would be between two neighbours.
  have hbelow : (k : ℚ) < (2 ^ 53 : ℤ) := by norm_num; linarith
  have habove : ((2 ^ 53 - 1 : ℤ) : ℚ) < k := by norm_num; linarith
  have := Int.cast_lt.mp hbelow
  have := Int.cast_lt.mp habove
  omega

theorem toUInt64_toNat_negative {x : Float} (hx : x.isFinite = true) (h : value x < 0) : x.toUInt64.toNat = 0 := by
  change x.toModel.unpack.toUInt64.toNat = 0
  rw [← isNumber_iff] at hx
  rw [value_eq] at h
  cases hu : x.toModel.unpack with
  | zero s => rfl
  | finite s m e hm =>
    rw [hu] at h
    cases s with
    | positive => exact absurd h (not_lt.mpr (valueOf_positive hm e).le)
    | negative =>
      obtain ⟨n, hn⟩ : ∃ n : Nat, UnpackedFloat.roundToInt .negative m e = -(n : Int) := ⟨_, rfl⟩
      have hcut : (-(n : Int)).toNat = 0 := by omega
      change (UInt64.ofNatClamp (UnpackedFloat.roundToInt .negative m e).toNat).toNat = 0
      rw [hn, hcut]
      rfl
  | _ =>
    rw [hu] at hx
    exact hx.elim

theorem toUInt64_past_end {x : Float} (h : counterEnd ≤ x) : x.toUInt64.toNat = maxCount := by
  by_cases hx : x.isFinite = true
  · rw [counterEnd_le_iff_value hx] at h
    have hfloor : (2 ^ 64 : ℤ) ≤ ⌊value x⌋ := Int.le_floor.mpr (by exact_mod_cast h)
    have hmax : maxCount = 2 ^ 64 - 1 := rfl
    rw [toUInt64_toNat hx (le_trans (by norm_num) h)]
    omega
  · change x.toModel.unpack.toUInt64.toNat = maxCount
    rw [(counterEnd_le_iff_infinite hx).mp h]
    decide

/-- Before the end no number is cut off at the largest count; what is not a number counts for nothing. -/
theorem toUInt64_before_end {x : Float} (h : ¬ counterEnd ≤ x) :
    x.toUInt64.toNat = ⌊value x⌋.toNat ∧ ⌊value x⌋.toNat < maxCount := by
  by_cases hx : x.isFinite = true
  · rw [counterEnd_le_iff_value hx, not_le] at h
    have hmax : maxCount = 2 ^ 64 - 1 := rfl
    have hfloor : ⌊value x⌋ < 2 ^ 64 - 1 := Int.floor_lt.mpr (by
      have hgap := value_le_of_lt_end hx h
      norm_num at hgap ⊢
      linarith)
    rcases le_or_gt 0 (value x) with hnonneg | hnegative
    · rw [toUInt64_toNat hx hnonneg]
      omega
    · have hbelow : ⌊value x⌋ < 0 := Int.floor_lt.mpr (by exact_mod_cast hnegative)
      rw [toUInt64_toNat_negative hx hnegative]
      omega
  · rw [counterEnd_le_iff_infinite hx] at h
    change ¬ x.toModel.unpack.isFinite = true at hx
    change x.toModel.unpack.toUInt64.toNat = _ ∧ _
    rw [value_eq]
    cases hu : x.toModel.unpack with
    | infinity s =>
      cases s with
      | positive => exact absurd hu h
      | negative => exact ⟨by decide, by decide⟩
    | notANumber => exact ⟨by decide, by decide⟩
    | _ => exact absurd (by rw [hu]; rfl) hx

end Double

/-! ## Tiles -/

namespace Tiling

open Double (value counterEnd)

variable {extent step : Float}

theorem countAlong_past_end (h : counterEnd ≤ extent / step) : countAlong extent step = none := by
  have hcut : (Scalar.count (extent / step)).toNat = Double.maxCount := Double.toUInt64_past_end h
  rw [countAlong, hcut]
  exact Word.count?_eq_none (by decide)

theorem countAlong_before_end (h : ¬ counterEnd ≤ extent / step) :
    countAlong extent step = some (⌊value (extent / step)⌋.toNat + 1) := by
  have hmax : Double.maxCount = 2 ^ 64 - 1 := rfl
  obtain ⟨hcount, hlt⟩ := Double.toUInt64_before_end h
  have hcut : (Scalar.count (extent / step)).toNat = ⌊value (extent / step)⌋.toNat := hcount
  rw [countAlong, hcut]
  exact Word.count?_eq (by omega)

/-- One tile more than whole pitches along both edges, row by row, each at its centre. -/
structure Fills (t : Tiling Float) (b : Bounds Float) (pitch : Point Float) : Prop where
  cols : t.cols = ⌊value ((b.xmax - b.xmin) / pitch.x)⌋.toNat + 1
  rows : t.rows = ⌊value ((b.ymax - b.ymin) / pitch.y)⌋.toNat + 1
  length : t.tiles.length = t.rows * t.cols
  tiles : ∀ row < t.rows, ∀ col < t.cols, t.tiles[row * t.cols + col]? =
    some ⟨row, col, centre b.xmin pitch.x col, centre b.ymin pitch.y row⟩

section Cover

variable {area : Area Float} {b : Bounds Float} {fov overlap : Point Float} (hb : area.bounds? = .ok b)
  (hpitch : 0 < (pitch fov overlap).x ∧ 0 < (pitch fov overlap).y)
include hb hpitch

theorem cover_past_end (h : counterEnd ≤ (b.xmax - b.xmin) / (pitch fov overlap).x ∨
    counterEnd ≤ (b.ymax - b.ymin) / (pitch fov overlap).y) : cover area fov overlap = .panicked := by
  rw [← Double.zero_literal] at hpitch
  exact cover_of_overflow hb hpitch (h.imp countAlong_past_end countAlong_past_end)

theorem cover_before_end (h : ¬ (counterEnd ≤ (b.xmax - b.xmin) / (pitch fov overlap).x ∨
    counterEnd ≤ (b.ymax - b.ymin) / (pitch fov overlap).y)) :
    ∃ t, cover area fov overlap = .ok t ∧ t.Fills b (pitch fov overlap) := by
  obtain ⟨hacross, hdown⟩ := not_or.mp h
  rw [← Double.zero_literal] at hpitch
  refine ⟨_, cover_of_counts hb hpitch (countAlong_before_end hacross) (countAlong_before_end hdown), rfl, rfl, ?_, ?_⟩
  · exact length_grid _ _ _ _
  · exact fun row hrow col hcol => getElem?_grid _ _ _ _ hrow hcol

end Cover

end Tiling

end Engraver
