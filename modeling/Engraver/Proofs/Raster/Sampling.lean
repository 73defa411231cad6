import Engraver.Motion.Belts
import Engraver.Raster.Mask
import Engraver.Proofs.Number.Range
import Engraver.Proofs.Number.Whole

/-!
# On the mask and off it

A place is counted out in pixels by cutting its coordinates off to whole numbers. So it is on the mask just if
they are not negative and less than the sides of the grid, and off the mask the intensity is zero.
-/

namespace Engraver

open Double (value)

/-! ## Cutting off -/

namespace Double

open Float.Model
open Float.Model.UnpackedFloat (Sign ExtendedMantissa)

theorem roundToInt_positive (m : Nat) (e : Int) :
    UnpackedFloat.roundToInt .positive m e = ⌊(m : ℚ) * 2 ^ e⌋ := by
  obtain ⟨k, hk, hdecrease, hvalue⟩ := exists_decreaseExponent m e 0
  have hshift : UnpackedFloat.roundToInt .positive m e = (m * 2 ^ k / 2 ^ (0 - (e - k)).toNat : Nat) := by
    unfold UnpackedFloat.roundToInt
    rw [hdecrease]
    exact congrArg Nat.cast (mantissa_shiftRight (.ofMantissaAndAccuracy (m * 2 ^ k) .exact) _)
  obtain ⟨j, hj⟩ : ∃ j : Nat, e - k = -(j : Int) := ⟨(k - e).toNat, by omega⟩
  have hquotient : (m : ℚ) * 2 ^ e = (m * 2 ^ k : Nat) / (2 ^ j : Nat) := by
    have h := hvalue .positive
    simp only [Sign.apply, Int.cast_natCast] at h
    rw [← h, hj, zpow_neg, zpow_natCast, div_eq_mul_inv]
    push_cast
    rfl
  rw [hshift, hj, hquotient, Rat.floor_natCast_div_natCast]
  simp

theorem toUInt64_toNat {x : Float} (hx : x.isFinite = true) (h : 0 ≤ value x) :
    x.toUInt64.toNat = min ⌊value x⌋.toNat maxCount := by
  have hsign := ofSign_of_nonneg hx h
  have hclamp (n : Nat) : (UInt64.ofNatClamp n).toNat = min n maxCount := by
    have hsize : UInt64.size = maxCount + 1 := rfl
    unfold UInt64.ofNatClamp
    split
    · rw [UInt64.toNat_ofNatLT]
      omega
    · rw [UInt64.toNat_ofNatLT]
      omega
  have hcut : x.toModel.unpack.toInt 0 (UInt64.size - 1) = ⌊value x⌋ := by
    rw [← isNumber_iff] at hx
    rw [value_eq]
    cases hu : x.toModel.unpack with
    | zero s => exact Int.floor_zero.symm
    | finite s m e hm =>
      rw [hu] at hsign
      obtain rfl : s = .positive := hsign
      exact roundToInt_positive m e
    | _ =>
      rw [hu] at hx
      exact hx.elim
  rw [← hcut]
  exact hclamp _

/-- A number from zero up to below `size`. -/
def Within (x : Float) (size : Nat) : Prop :=
  x.isFinite = true ∧ 0 ≤ value x ∧ value x < size

instance (x : Float) (size : Nat) : Decidable (Within x size) := inferInstanceAs (Decidable (_ ∧ _))

theorem isFinite_of_toUInt64 {x : Float} (h : 0 ≤ x) (hlt : x.toUInt64.toNat < maxCount) :
    x.isFinite = true := by
  have hle : (UnpackedFloat.zero .positive).le x.toModel.unpack = true := by
    rw [← unpack_zero]
    exact of_decide_eq_true h
  change x.toModel.unpack.toUInt64.toNat < maxCount at hlt
  change x.toModel.unpack.isFinite = true
  cases hu : x.toModel.unpack with
  | infinity s =>
    rw [hu] at hle hlt
    cases s with
    | negative => cases hle
    | positive =>
      have hend : (UnpackedFloat.infinity .positive).toUInt64.toNat = maxCount := by decide
      omega
  | notANumber =>
    rw [hu] at hle
    cases hle
  | _ => rfl

theorem within_of_toUInt64 {x : Float} {size : Nat} (hsize : size ≤ maxCount) (h : 0 ≤ x)
    (hlt : x.toUInt64.toNat < size) : Within x size := by
  have hx := isFinite_of_toUInt64 h (hlt.trans_le hsize)
  have hnonneg : 0 ≤ value x := by
    rw [le_iff_value_le value_zero.1 hx, value_zero.2] at h
    exact h
  refine ⟨hx, hnonneg, ?_⟩
  rw [toUInt64_toNat hx hnonneg] at hlt
  have hfloor : ⌊value x⌋ < size := by omega
  exact_mod_cast Int.floor_lt.mp hfloor

end Double

/-! ## The mask -/

namespace Raster

/-- The column and the row of a place, as they are computed, are those of a pixel. -/
structure Covers (r : Raster) (p : Point Float) : Prop where
  column : Double.Within (p.x * r.dpmm) r.mask.width
  row : Double.Within (p.y * r.dpmm) r.mask.height

instance (r : Raster) (p : Point Float) : Decidable (r.Covers p) :=
  decidable_of_iff (_ ∧ _) ⟨fun h => ⟨h.1, h.2⟩, fun h => ⟨h.column, h.row⟩⟩

theorem sample_off_mask {r : Raster} (hwidth : r.mask.width ≤ Double.maxCount)
    (hheight : r.mask.height ≤ Double.maxCount) {p : Point Float} (h : ¬ r.Covers p) : r.sample p.x p.y = 0 := by
  unfold sample
  dsimp only
  split
  · rename_i hnonneg
    unfold Mask.get?
    rw [if_neg]
    · rfl
    · rintro ⟨hcol, hrow⟩
      exact h ⟨Double.within_of_toUInt64 hwidth hnonneg.1 hcol, Double.within_of_toUInt64 hheight hnonneg.2 hrow⟩
  · rfl

end Raster

end Engraver
