import Engraver.Proofs.Grid
import Engraver.Proofs.Raster.Sampling

/-!
# The rows of a mask

A mask stores its rows one after the other and gives each of their pixels back. A place on the bed has the
pixel that its two coordinates, counted in pixels, are rounded down to.
-/

namespace Engraver

open Double (value)

namespace Mask

/-- The mask has these rows, all of one width. -/
structure HasRows (m : Mask) (rows : List (List UInt8)) : Prop where
  height : m.height = rows.length
  width : ∀ row ∈ rows, row.length = m.width
  pixels : m.pixels = rows.flatten.toArray

theorem ofRows_cons (first : List UInt8) (rest : List (List UInt8)) :
    ofRows (first :: rest) =
      if first = [] then .error .empty
      else if ∀ row ∈ first :: rest, row.length = first.length then
        .ok ⟨first.length, (first :: rest).length, (first :: rest).flatten.toArray⟩
      else .error .ragged := by
  simp only [ofRows, List.head?_cons, Option.getD_some, List.length_eq_zero_iff, List.any_eq_true, bne_iff_ne]
  split
  · rfl
  · by_cases h : ∀ row ∈ first :: rest, row.length = first.length
    · rw [if_pos h, if_neg (by simpa using h)]
    · rw [if_neg h, if_pos (by simpa using h)]

theorem exists_ofRows_iff (rows : List (List UInt8)) :
    (∃ m, ofRows rows = .ok m) ↔
      ∃ first, rows.head? = some first ∧ first ≠ [] ∧ ∀ row ∈ rows, row.length = first.length := by
  cases rows with
  | nil => simp [ofRows]
  | cons first rest =>
    rw [ofRows_cons]
    split_ifs with hempty hsame
    · simp [hempty]
    · simpa [hempty] using hsame
    · simpa [hempty] using hsame

theorem ofRows_eq_empty_iff (rows : List (List UInt8)) :
    ofRows rows = .error .empty ↔ rows = [] ∨ rows.head? = some [] := by
  cases rows with
  | nil => simp [ofRows]
  | cons first rest =>
    rw [ofRows_cons]
    split_ifs with hempty <;> simp [hempty]

theorem ofRows_eq_ragged_iff (rows : List (List UInt8)) :
    ofRows rows = .error .ragged ↔
      ∃ first, rows.head? = some first ∧ first ≠ [] ∧ ∃ row ∈ rows, row.length ≠ first.length := by
  cases rows with
  | nil => simp [ofRows]
  | cons first rest =>
    rw [ofRows_cons]
    split_ifs with hempty hsame
    · simp [hempty]
    · simpa [hempty] using hsame
    · simpa [hempty] using hsame

theorem hasRows_of_ofRows {rows : List (List UInt8)} {m : Mask} (h : ofRows rows = .ok m) : m.HasRows rows := by
  cases rows with
  | nil => cases h
  | cons first rest =>
    rw [ofRows_cons] at h
    split_ifs at h with hempty hsame
    cases h
    exact ⟨rfl, hsame, rfl⟩

theorem HasRows.size {m : Mask} {rows : List (List UInt8)} (h : m.HasRows rows) :
    m.pixels.size = m.width * m.height := by
  rw [h.pixels, List.size_toArray, length_flatten_rows h.width, h.height]

theorem HasRows.get? {m : Mask} {rows : List (List UInt8)} (h : m.HasRows rows) (col row : Nat) :
    m.get? col row = rows[row]?.bind (·[col]?) := by
  unfold Mask.get?
  split
  · rename_i hin
    rw [h.pixels, List.getElem?_toArray, getElem?_flatten_rows h.width row col hin.1]
  · rename_i hout
    symm
    rw [Option.bind_eq_none_iff]
    intro line hline
    obtain ⟨hrow, -⟩ := List.getElem?_eq_some_iff.mp hline
    have hwidth := h.width line (List.mem_of_getElem? hline)
    have hheight := h.height
    exact List.getElem?_eq_none (by omega)

theorem HasRows.isSome_get? {m : Mask} {rows : List (List UInt8)} (h : m.HasRows rows) (col row : Nat) :
    (m.get? col row).isSome = true ↔ col < m.width ∧ row < m.height := by
  unfold Mask.get?
  split
  · rename_i hin
    have hend : row * m.width + col < m.pixels.size := by
      rw [h.size]
      nlinarith
    simp [hin, hend]
  · rename_i hout
    simp [hout]

end Mask

/-! ## Places on a mask -/

namespace Double

/-- A coordinate that is counted in pixels is rounded down to this pixel. -/
def FallsIn (x : Float) (pixel : Nat) : Prop :=
  x.isFinite = true ∧ ⌊value x⌋ = pixel

instance (x : Float) (pixel : Nat) : Decidable (FallsIn x pixel) := inferInstanceAs (Decidable (_ ∧ _))

theorem FallsIn.nonneg {x : Float} {pixel : Nat} (h : FallsIn x pixel) : 0 ≤ value x := by
  rw [← Int.floor_nonneg, h.2]
  exact Int.natCast_nonneg pixel

theorem FallsIn.toUInt64 {x : Float} {pixel : Nat} (h : FallsIn x pixel) (hpixel : pixel ≤ maxCount) :
    0 ≤ x ∧ x.toUInt64.toNat = pixel := by
  constructor
  · rw [le_iff_value_le value_zero.1 h.1, value_zero.2]
    exact h.nonneg
  · rw [toUInt64_toNat h.1 h.nonneg, h.2, Int.toNat_natCast, min_eq_left hpixel]

theorem Within.exists_fallsIn {x : Float} {size : Nat} (h : Within x size) : ∃ pixel < size, FallsIn x pixel := by
  obtain ⟨hx, hnonneg, hlt⟩ := h
  have hfloor : ⌊value x⌋ < size := Int.floor_lt.mpr (by exact_mod_cast hlt)
  have hpos : 0 ≤ ⌊value x⌋ := Int.floor_nonneg.mpr hnonneg
  exact ⟨⌊value x⌋.toNat, by omega, hx, (Int.toNat_of_nonneg hpos).symm⟩

end Double

namespace Raster

variable {r : Raster} (hwidth : r.mask.width ≤ Double.maxCount) (hheight : r.mask.height ≤ Double.maxCount)
include hwidth hheight

theorem sample_on_mask {x y : Float} {col row : Nat} (hx : Double.FallsIn (x * r.dpmm) col)
    (hy : Double.FallsIn (y * r.dpmm) row) (hcol : col < r.mask.width) (hrow : row < r.mask.height) :
    r.sample x y = (r.mask.get? col row).getD 0 := by
  obtain ⟨hxpos, hxcut⟩ := hx.toUInt64 (hcol.le.trans hwidth)
  obtain ⟨hypos, hycut⟩ := hy.toUInt64 (hrow.le.trans hheight)
  unfold sample
  dsimp only
  rw [if_pos ⟨hxpos, hypos⟩, hxcut, hycut]

theorem sample_eq_zero {x y : Float} (h : ∀ col < r.mask.width, ∀ row < r.mask.height,
    ¬ (Double.FallsIn (x * r.dpmm) col ∧ Double.FallsIn (y * r.dpmm) row)) : r.sample x y = 0 := by
  refine sample_off_mask (p := ⟨x, y⟩) hwidth hheight fun hcovers => ?_
  obtain ⟨col, hcol, hx⟩ := hcovers.column.exists_fallsIn
  obtain ⟨row, hrow, hy⟩ := hcovers.row.exists_fallsIn
  exact h col hcol row hrow ⟨hx, hy⟩

end Raster

/-- **A mask is its rows.** Rows make a mask exactly if there is a first one, it is not empty, and all have its
length. Without rows or with an empty first one the fault is that the mask is empty, and else that it is ragged.
A mask has as many pixels as its sides say, and the pixel in each column of each row is the one of that row;
outside the grid there is none. Every raster that shows the mask has at every place the pixel of the column and
the row that the place is in, and 0 at a place that is in none: off the grid on any side, or not a number at
all. -/
theorem mask_is_its_rows (rows : List (List UInt8)) :
    ((∃ m, Mask.ofRows rows = .ok m) ↔
      ∃ first, rows.head? = some first ∧ first ≠ [] ∧ ∀ row ∈ rows, row.length = first.length) ∧
    (Mask.ofRows rows = .error .empty ↔ rows = [] ∨ rows.head? = some []) ∧
    (Mask.ofRows rows = .error .ragged ↔
      ∃ first, rows.head? = some first ∧ first ≠ [] ∧ ∃ row ∈ rows, row.length ≠ first.length) ∧
    ∀ m, Mask.ofRows rows = .ok m →
      (m.height = rows.length ∧ (∀ row ∈ rows, row.length = m.width) ∧ m.pixels.size = m.width * m.height) ∧
      (∀ col row, m.get? col row = rows[row]?.bind (·[col]?)) ∧
      (∀ col row, (m.get? col row).isSome = true ↔ col < m.width ∧ row < m.height) ∧
      (m.width ≤ Double.maxCount → m.height ≤ Double.maxCount →
        ∀ (r : Raster), r.mask = m → ∀ x y,
          (∀ col < m.width, ∀ row < m.height,
            Double.FallsIn (x * r.dpmm) col ∧ Double.FallsIn (y * r.dpmm) row →
              rows[row]?.bind (·[col]?) = some (r.sample x y)) ∧
          ((∀ col < m.width, ∀ row < m.height,
            ¬ (Double.FallsIn (x * r.dpmm) col ∧ Double.FallsIn (y * r.dpmm) row)) → r.sample x y = 0)) := by
  refine ⟨Mask.exists_ofRows_iff rows, Mask.ofRows_eq_empty_iff rows, Mask.ofRows_eq_ragged_iff rows, ?_⟩
  intro m hm
  have hrows := Mask.hasRows_of_ofRows hm
  refine ⟨⟨hrows.height, hrows.width, hrows.size⟩, hrows.get?, hrows.isSome_get?, ?_⟩
  rintro hwidth hheight r rfl x y
  refine ⟨?_, Raster.sample_eq_zero hwidth hheight⟩
  rintro col hcol row hrow ⟨hx, hy⟩
  obtain ⟨pixel, hpixel⟩ := Option.isSome_iff_exists.mp ((hrows.isSome_get? col row).mpr ⟨hcol, hrow⟩)
  rw [← hrows.get? col row, Raster.sample_on_mask hwidth hheight hx hy hcol hrow, hpixel]
  rfl

/-- Two rows of a pattern, with two pixels to the millimetre: a place on it, and places off it to the left, to the
right and far off, at infinity and at what is no number. -/
theorem checker_is_its_rows :
    let rows : List (List UInt8) := [[0, 255], [255, 0]]
    ∃ m, Mask.ofRows rows = .ok m ∧ m.pixels.size = 4 ∧ m.get? 1 0 = some 255 ∧ m.get? 2 0 = none ∧
      Raster.sample ⟨m, 2⟩ 0.7 0.2 = 255 ∧
      ∀ x ∈ [(-0.1 : Float), 1, 1e300, 1 / 0, 0 / 0], Raster.sample ⟨m, 2⟩ x 0.7 = 0 := by
  intro rows
  have hplace : Double.FallsIn (0.7 * 2) 1 ∧ Double.FallsIn (0.2 * 2) 0 := by decide +kernel
  have hoff : ∀ x ∈ [(-0.1 : Float), 1, 1e300, 1 / 0, 0 / 0], ∀ col < 2, ∀ row < 2,
      ¬ (Double.FallsIn (x * 2) col ∧ Double.FallsIn (0.7 * 2) row) := by decide +kernel
  obtain ⟨-, -, -, hmask⟩ := mask_is_its_rows rows
  obtain ⟨⟨-, -, hsize⟩, hget, -, hsample⟩ := hmask ⟨2, 2, #[0, 255, 255, 0]⟩ rfl
  have hsample := hsample (by decide) (by decide) ⟨_, 2⟩ rfl
  refine ⟨_, rfl, hsize, hget 1 0, hget 2 0, ?_, ?_⟩
  · exact (Option.some.inj ((hsample 0.7 0.2).1 1 (by decide) 0 (by decide) hplace)).symm
  · exact fun x hx => (hsample x 0.7).2 (hoff x hx)

end Engraver
