import Engraver.Proofs.Number.Arithmetic

/-!
# Rounding to whole numbers is exact

What a finite double is rounded to is the whole number nearest to its value, a half going away from zero,
unless the counter ends before. Sizes of doubles and of their products do not depend on signs.
-/

namespace Engraver

/-! ## The nearest whole number -/

namespace Rat

theorem roundAway_of_nonneg {x : ℚ} (h : 0 ≤ x) : roundAway x = ⌊x + 1 / 2⌋ :=
  if_neg (not_lt.mpr h)

theorem roundAway_neg (x : ℚ) : roundAway (-x) = -roundAway x := by
  rcases lt_trichotomy x 0 with h | rfl | h
  · rw [roundAway, roundAway, if_neg (by linarith), if_pos h, neg_neg]
  · rw [neg_zero, roundAway_of_nonneg le_rfl]
    norm_num
  · rw [roundAway, roundAway, if_pos (by linarith), if_neg (by linarith), neg_neg]

theorem roundAway_nonneg {x : ℚ} (h : 0 ≤ x) : 0 ≤ roundAway x := by
  rw [roundAway_of_nonneg h]
  exact Int.floor_nonneg.mpr (by linarith)

theorem roundAway_abs (x : ℚ) : roundAway |x| = |roundAway x| := by
  rcases le_total 0 x with h | h
  · rw [abs_of_nonneg h, abs_of_nonneg (roundAway_nonneg h)]
  · have hneg := roundAway_nonneg (neg_nonneg.mpr h)
    rw [roundAway_neg] at hneg
    rw [abs_of_nonpos h, roundAway_neg, abs_of_nonpos (by linarith)]

theorem roundAway_mono_of_nonneg {x y : ℚ} (hx : 0 ≤ x) (h : x ≤ y) : roundAway x ≤ roundAway y := by
  rw [roundAway_of_nonneg hx, roundAway_of_nonneg (hx.trans h)]
  exact Int.floor_le_floor (by linarith)

theorem roundAway_max_abs (x y : ℚ) : roundAway (max |x| |y|) = max |roundAway x| |roundAway y| := by
  rcases le_total |x| |y| with h | h
  · have hmono := roundAway_mono_of_nonneg (abs_nonneg x) h
    rw [roundAway_abs, roundAway_abs] at hmono
    rw [max_eq_right h, max_eq_right hmono, roundAway_abs]
  · have hmono := roundAway_mono_of_nonneg (abs_nonneg y) h
    rw [roundAway_abs, roundAway_abs] at hmono
    rw [max_eq_left h, max_eq_left hmono, roundAway_abs]

theorem roundAway_close (x : ℚ) : |(roundAway x : ℚ) - x| ≤ 1 / 2 := by
  have hclose {y : ℚ} (h : 0 ≤ y) : |(roundAway y : ℚ) - y| ≤ 1 / 2 := by
    rw [roundAway_of_nonneg h, abs_le]
    constructor <;> linarith [Int.floor_le (y + 1 / 2), Int.lt_floor_add_one (y + 1 / 2)]
  rcases le_total 0 x with h | h
  · exact hclose h
  · have hneg := hclose (neg_nonneg.mpr h)
    rw [roundAway_neg, ← abs_neg] at hneg
    convert hneg using 2
    push_cast
    ring

end Rat

namespace Double

open Float.Model
open Float.Model.UnpackedFloat (Sign)

theorem roundScaled_eq (m : Nat) (e : Int) : (roundScaled m e : Int) = ⌊(m : ℚ) * 2 ^ e + 1 / 2⌋ := by
  unfold roundScaled
  split
  · rename_i h
    obtain ⟨k, rfl⟩ := Int.eq_ofNat_of_zero_le h
    have hwhole : (m : ℚ) * 2 ^ (k : Int) = ((m * 2 ^ k : Nat) : ℚ) := by
      rw [zpow_natCast]
      push_cast
      rfl
    have hhalf : ⌊(1 / 2 : ℚ)⌋ = 0 := by norm_num
    rw [hwhole, Int.floor_natCast_add, hhalf, add_zero]
    rfl
  · rename_i h
    obtain ⟨k, hk⟩ := Int.eq_ofNat_of_zero_le (show 0 ≤ -e by omega)
    obtain rfl : e = -(k : Int) := by omega
    have hhalves : (m : ℚ) * 2 ^ (-(k : Int)) + 1 / 2 = ((2 * m + 2 ^ k : Nat) : ℚ) / ((2 * 2 ^ k : Nat) : ℚ) := by
      rw [zpow_neg, zpow_natCast]
      push_cast
      field_simp
    rw [hhalves, Rat.floor_natCast_div_natCast]
    simp

theorem roundAway_value {x : Float} (hx : x.isFinite = true) :
    ∃ negative m e, reading x = .finite negative m e ∧
      Rat.roundAway (value x) = signed negative (roundScaled m e) := by
  obtain ⟨negative, m, e, hreading, hvalue⟩ := reading_of_value hx
  have hsize : Rat.roundAway (m * 2 ^ e) = roundScaled m e := by
    rw [Rat.roundAway_of_nonneg (by positivity), roundScaled_eq]
  refine ⟨negative, m, e, hreading, ?_⟩
  rw [hvalue]
  cases negative with
  | false => exact hsize
  | true =>
    simp only [signed, if_true]
    push_cast
    rw [neg_mul, Rat.roundAway_neg, hsize]

theorem roundToSteps_eq {x : Float} (hx : x.isFinite = true) :
    roundToSteps x = max minSteps (min (Rat.roundAway (value x)) maxSteps) := by
  obtain ⟨negative, m, e, hreading, hround⟩ := roundAway_value hx
  rw [roundToSteps, hreading, hround]

theorem roundToCount_eq {x : Float} (hx : x.isFinite = true) :
    roundToCount x = min (Rat.roundAway (value x)).toNat maxCount := by
  obtain ⟨negative, m, e, hreading, hround⟩ := roundAway_value hx
  rw [roundToCount, hreading, hround]
  cases negative with
  | false => simp [signed]
  | true => simp [signed]

/-! ## Signs of products -/

theorem OfSign.mul {s t : Sign} {u v : UnpackedFloat} (hu : OfSign s u) (hv : OfSign t v) :
    OfSign (s * t) (UnpackedFloat.mul .binary64 u v) := by
  cases u <;> cases v <;> cases hu <;> cases hv <;> first | trivial | rfl | exact ofSign_round _ _ _ _

theorem valueOf_positive {m : Nat} (hm : 0 < m) (e : Int) : 0 < valueOf (.finite .positive m e hm) := by
  simp only [valueOf, Sign.apply, Int.cast_natCast]
  positivity

theorem valueOf_nonneg {u : UnpackedFloat} (h : OfSign .positive u) : 0 ≤ valueOf u := by
  cases u with
  | finite s m e hm =>
    obtain rfl : s = .positive := h
    exact (valueOf_positive hm e).le
  | _ => exact le_rfl

theorem ofSign_of_nonneg {x : Float} (hx : x.isFinite = true) (h : 0 ≤ value x) :
    OfSign .positive x.toModel.unpack := by
  rw [← isNumber_iff] at hx
  rw [value_eq] at h
  cases hu : x.toModel.unpack with
  | zero s => trivial
  | finite s m e hm =>
    rw [hu] at h
    cases s with
    | positive => rfl
    | negative =>
      have hneg := valueOf_neg (.finite .negative m e hm)
      have hpos := valueOf_positive hm e
      exact absurd (hneg ▸ hpos : 0 < -valueOf (.finite .negative m e hm)) (by linarith)
  | _ =>
    rw [hu] at hx
    exact hx.elim

theorem value_mul_nonneg {x y : Float} (h : (x * y).isFinite = true) (hx : 0 ≤ value x) (hy : 0 ≤ value y) :
    0 ≤ value (x * y) := by
  obtain ⟨hx', hy', -⟩ := value_mul h
  rw [value_eq]
  exact valueOf_nonneg ((ofSign_of_nonneg hx' hx).mul (ofSign_of_nonneg hy' hy)).repack

theorem mul_neg_unpacked (u v : UnpackedFloat) :
    UnpackedFloat.mul .binary64 u.neg v = (UnpackedFloat.mul .binary64 u v).neg := by
  have hsign (s t : Sign) : -s * t = -(s * t) := by cases s <;> cases t <;> rfl
  cases u <;> cases v <;> simp only [UnpackedFloat.neg, UnpackedFloat.mul, hsign]
  case finite.finite =>
    unfold UnpackedFloat.roundWithAccuracy
    dsimp only
    split <;> rfl

theorem isNumber_mul {u v : UnpackedFloat} (hu : IsNumber u) (hv : IsNumber v)
    (h : IsNumber (Float.Model.pack (UnpackedFloat.mul .binary64 u v)).unpack) :
    IsNumber (UnpackedFloat.mul .binary64 u v) := by
  cases u with
  | zero s => cases v <;> trivial
  | finite s m e hm =>
    cases v with
    | zero t => trivial
    | finite t n f hn =>
      obtain ⟨_, _, hshaped, -⟩ := round_shaped (s * t) (le_unit_mul hm hn hu hv)
      exact hshaped.isNumber h
    | _ => exact hv.elim
  | _ => exact hu.elim

theorem value_neg_mul {x y : Float} (h : (x * y).isFinite = true) :
    (-x * y).isFinite = true ∧ value (-x * y) = -value (x * y) := by
  obtain ⟨hx, hy, -⟩ := value_mul h
  rw [← isNumber_iff] at hx hy h ⊢
  have hproduct := isNumber_mul hx hy h
  have hneg : (-x * y).toModel.unpack = (x * y).toModel.unpack.neg := by
    change (Float.Model.pack (UnpackedFloat.mul .binary64 (Float.Model.pack x.toModel.unpack.neg).unpack
      y.toModel.unpack)).unpack = (Float.Model.pack (UnpackedFloat.mul .binary64 _ _)).unpack.neg
    rw [hx.neg.repack, mul_neg_unpacked, hproduct.neg.repack, hproduct.repack]
  rw [value_eq, value_eq, hneg, valueOf_neg]
  exact ⟨h.neg, rfl⟩

theorem value_abs_mul {x c : Float} (h : (x * c).isFinite = true) (hc : 0 ≤ value c) :
    (Scalar.abs x * c).isFinite = true ∧ value (Scalar.abs x * c) = |value (x * c)| := by
  obtain ⟨hx, -, -⟩ := value_mul h
  obtain ⟨-, hvalue⟩ := abs_close hx
  unfold Scalar.abs at hvalue ⊢
  split
  · rename_i hneg
    rw [if_pos hneg] at hvalue
    obtain ⟨hfinite, hopposite⟩ := value_neg_mul h
    have hnonneg := value_mul_nonneg hfinite (hvalue ▸ abs_nonneg _) hc
    refine ⟨hfinite, ?_⟩
    rw [hopposite] at hnonneg ⊢
    rw [abs_of_nonpos (by linarith)]
  · rename_i hneg
    rw [if_neg hneg] at hvalue
    exact ⟨h, (abs_of_nonneg (value_mul_nonneg h (hvalue ▸ abs_nonneg _) hc)).symm⟩

/-! ## Zeros of either sign -/

theorem valueOf_ne_zero {s : Sign} {m : Nat} (hm : 0 < m) (e : Int) : valueOf (.finite s m e hm) ≠ 0 := by
  have hpos := valueOf_positive hm e
  cases s with
  | positive => exact hpos.ne'
  | negative => exact neg_ne_zero.mp (valueOf_neg (.finite .negative m e hm) ▸ hpos.ne')

theorem eq_of_magnitude_eq {m n : Nat} {e f : Int} (hm : Canonical m e) (hn : Canonical n f)
    (h : (m : ℚ) * 2 ^ e = n * 2 ^ f) : m = n ∧ e = f := by
  have hcompare := compare_magnitudes hm hn
  rw [h, compare_eq_iff_eq.mpr rfl, Ordering.then_eq_eq] at hcompare
  exact ⟨compare_eq_iff_eq.mp hcompare.2, compare_eq_iff_eq.mp hcompare.1⟩

theorem IsNumber.eq_or_zeros {u v : UnpackedFloat} (hu : IsNumber u) (hv : IsNumber v)
    (h : valueOf u = valueOf v) : u = v ∨ (∃ s, u = .zero s) ∧ ∃ t, v = .zero t := by
  cases u with
  | zero s =>
    cases v with
    | zero t => exact .inr ⟨⟨s, rfl⟩, t, rfl⟩
    | finite t n f hn => exact absurd h.symm (valueOf_ne_zero hn f)
    | _ => exact hv.elim
  | finite s m e hm =>
    cases v with
    | zero t => exact absurd h (valueOf_ne_zero hm e)
    | finite t n f hn =>
      have hsize : (m : ℚ) * 2 ^ e = n * 2 ^ f := by
        rw [← abs_apply s, ← abs_apply t]
        exact congrArg (fun x : ℚ => |x|) h
      obtain ⟨rfl, rfl⟩ := eq_of_magnitude_eq hu hv hsize
      left
      have hpos := valueOf_positive hm e
      have hneg := valueOf_neg (.finite .negative m e hm)
      change valueOf (.finite .positive m e hm) = _ at hneg
      cases s <;> cases t <;> first | rfl | (exfalso; linarith)
    | _ => exact hv.elim
  | _ => exact hu.elim

theorem eq_or_zeros {x y : Float} (hx : x.isFinite = true) (hy : y.isFinite = true) (h : value x = value y) :
    x = y ∨ (x == 0) = true ∧ (y == 0) = true := by
  rw [beq_zero_iff, beq_zero_iff]
  rw [value_eq, value_eq] at h
  exact (((isNumber_iff x).mpr hx).eq_or_zeros ((isNumber_iff y).mpr hy) h).imp_left (eq_of_unpack hx)

theorem isFinite_of_zero {z : Float} (hz : (z == 0) = true) : z.isFinite = true ∧ value z = 0 := by
  obtain ⟨s, hs⟩ := (beq_zero_iff z).mp hz
  rw [← isNumber_iff, value_eq, hs]
  exact ⟨trivial, rfl⟩

theorem zero_add_value {z y : Float} (hz : (z == 0) = true) (hy : y.isFinite = true) :
    (z + y).isFinite = true ∧ value (z + y) = value y := by
  obtain ⟨s, hz⟩ := (beq_zero_iff z).mp hz
  have hnumber := (isNumber_iff y).mpr hy
  have hsum : (z + y).toModel.unpack =
      (Float.Model.pack (UnpackedFloat.add .binary64 (.zero s) y.toModel.unpack)).unpack := by
    rw [← hz]
    rfl
  rw [← isNumber_iff, value_eq, value_eq, hsum]
  cases hu : y.toModel.unpack with
  | zero t =>
    have hzero : ∃ w, UnpackedFloat.add .binary64 (.zero s) (.zero t) = .zero w := by
      simp only [UnpackedFloat.add]
      split <;> exact ⟨_, rfl⟩
    obtain ⟨w, hw⟩ := hzero
    rw [hw, IsNumber.repack (u := .zero w) trivial]
    exact ⟨trivial, rfl⟩
  | finite t m e hm =>
    rw [hu] at hnumber
    change IsNumber (Float.Model.pack (.finite t m e hm)).unpack ∧ _ = _
    rw [hnumber.repack]
    exact ⟨hnumber, congrArg valueOf hnumber.repack⟩
  | _ =>
    rw [hu] at hnumber
    exact hnumber.elim

theorem value_add_congr {x x' y : Float} (hx' : x'.isFinite = true) (h : value x' = value x)
    (hsum : (x + y).isFinite = true) : (x' + y).isFinite = true ∧ value (x' + y) = value (x + y) := by
  obtain ⟨hx, hy, -⟩ := value_add hsum
  rcases eq_or_zeros hx' hx h with rfl | ⟨hzero', hzero⟩
  · exact ⟨hsum, rfl⟩
  · obtain ⟨hfinite, hvalue⟩ := zero_add_value hzero' hy
    exact ⟨hfinite, hvalue.trans (zero_add_value hzero hy).2.symm⟩

theorem value_mul_congr {x x' y : Float} (hx' : x'.isFinite = true) (h : value x' = value x)
    (hproduct : (x * y).isFinite = true) :
    (x' * y).isFinite = true ∧ value (x' * y) = value (x * y) := by
  obtain ⟨hx, hy, -⟩ := value_mul hproduct
  rcases eq_or_zeros hx' hx h with rfl | ⟨hzero', hzero⟩
  · exact ⟨hproduct, rfl⟩
  · obtain ⟨hfinite', hvalue'⟩ := isFinite_of_zero (zero_mul_beq hy hzero').1
    exact ⟨hfinite', hvalue'.trans (isFinite_of_zero (zero_mul_beq hy hzero).1).2.symm⟩

end Double

end Engraver
