import Engraver.Number.Scalar
import Engraver.Proofs.Number.Bits
import Engraver.Proofs.Number.Signs

/-!
# The values of doubles

A finite double is a rational number. Negation, comparison and the rounding to whole steps are exact on
these values.
-/

namespace Engraver.Double

open Float.Model
open Float.Model.UnpackedFloat (Sign)

/-- The rational that a finite double is, and 0 for the others. -/
def value (x : Float) : ℚ :=
  match reading x with
  | .finite negative m e => signed negative m * 2 ^ e
  | _ => 0

def valueOf : UnpackedFloat → ℚ
  | .finite s m e _ => s.apply m * 2 ^ e
  | _ => 0

/-! ## Readings -/

theorem unpackExponent_eq_zero_iff (bits : UInt64) :
    @UnpackedFloat.unpackExponent .binary64 bits.toBitVec = 0#11 ↔ bits.toNat / fieldBit % 2048 = 0 := by
  rw [← BitVec.toNat_inj, unpackExponent_toNat]
  rfl

theorem unpackSign_eq (bits : UInt64) :
    Sign.ofBitVec (@UnpackedFloat.unpackSign .binary64 bits.toBitVec) =
      if bits.toNat / signBit % 2 == 1 then .negative else .positive := by
  have hnat : (@UnpackedFloat.unpackSign .binary64 bits.toBitVec).toNat = bits.toNat / signBit % 2 := by
    rw [UnpackedFloat.unpackSign_def, BitVec.extractLsb'_toNat, Nat.shiftRight_eq_div_pow]
    rfl
  unfold Sign.ofBitVec
  by_cases h : bits.toNat / signBit % 2 = 1
  · rw [if_neg, if_pos (by simp [h])]
    intro hzero
    rw [hzero, h] at hnat
    cases hnat
  · rw [if_pos, if_neg (by simpa using h)]
    apply BitVec.eq_of_toNat_eq
    rw [hnat]
    simp only [BitVec.toNat_ofNat]
    omega

theorem reading_eq (x : Float) : reading x =
    match x.toModel.unpack with
    | .notANumber => .nan
    | .infinity s => .infinite (s == .negative)
    | .zero s => .finite (s == .negative) 0 (-1074)
    | .finite s m e _ => .finite (s == .negative) m e := by
  have hsign : (Sign.ofBitVec (@UnpackedFloat.unpackSign .binary64 x.toBits.toBitVec) == .negative) =
      (x.toBits.toNat / signBit % 2 == 1) := by
    rw [unpackSign_eq]
    split <;> simp_all
  have hunpack : x.toModel.unpack = UnpackedFloat.unpack .binary64 x.toBits.toBitVec := rfl
  have hfield := unpackExponent_toNat x.toBits
  have hfraction := unpackMantissa_toNat x.toBits
  have hones := unpackExponent_eq_ones_iff x.toBits
  have hleast := unpackExponent_eq_zero_iff x.toBits
  have hzero := unpackMantissa_eq_zero_iff x.toBits
  rw [hunpack]
  unfold reading Reading.ofBits UnpackedFloat.unpack
  dsimp only
  by_cases h : x.toBits.toNat / fieldBit % 2048 = 2047
  · rw [if_pos h, if_pos (hones.mpr h), ← hsign]
    by_cases h' : x.toBits.toNat % fieldBit = 0
    · rw [if_pos h', if_pos (hzero.mpr h')]
    · rw [if_neg h', if_neg (mt hzero.mp h')]
  · rw [if_neg h, if_neg (mt hones.mp h), ← hsign]
    by_cases h' : x.toBits.toNat / fieldBit % 2048 = 0
    · rw [if_pos h', if_pos (hleast.mpr h')]
      by_cases h'' : x.toBits.toNat % fieldBit = 0
      · rw [dif_pos (hzero.mpr h''), h'']
      · rw [dif_neg (mt hzero.mp h'')]
        simp only [hfraction]
        rw [hfield, h']
        rfl
    · rw [if_neg h', if_neg (mt hleast.mp h')]
      have hmantissa : (1#1 ++ @UnpackedFloat.unpackMantissa .binary64 x.toBits.toBitVec).toNat =
          fieldBit + x.toBits.toNat % fieldBit := by
        have hlt : x.toBits.toNat % fieldBit < 2 ^ 52 := Nat.mod_lt _ (by decide)
        rw [BitVec.toNat_append, hfraction]
        exact (Nat.two_pow_add_eq_or_of_lt hlt 1).symm
      simp only [hmantissa]
      rw [hfield]
      congr 1

theorem value_eq (x : Float) : value x = valueOf x.toModel.unpack := by
  unfold value
  rw [reading_eq]
  cases x.toModel.unpack with
  | finite s m e hm => cases s <;> rfl
  | zero s => cases s <;> simp [valueOf, signed]
  | _ => rfl

theorem canonical_of_unpack {x : Float} {s : Sign} {m : Nat} {e : Int} {hm : 0 < m}
    (h : x.toModel.unpack = .finite s m e hm) : Canonical m e := by
  have hreading := reading_eq x
  rw [h] at hreading
  exact (eq_ofMagnitude_of_reading hreading).1

/-- A zero, or a mantissa and an exponent that a double can have. -/
def IsNumber : UnpackedFloat → Prop
  | .zero _ => True
  | .finite _ m e _ => Canonical m e
  | _ => False

theorem isNumber_iff (x : Float) : IsNumber x.toModel.unpack ↔ x.isFinite = true := by
  change _ ↔ x.toModel.unpack.isFinite = true
  cases h : x.toModel.unpack with
  | finite s m e hm => exact iff_of_true (canonical_of_unpack h) rfl
  | zero s => exact iff_of_true trivial rfl
  | _ => exact iff_of_false id Bool.false_ne_true

/-! ## Packing -/

theorem unpack_normal (s : Sign) {m : Nat} {e : Int} (hm : 0 < m) (h : Canonical m e)
    (hfull : fieldBit ≤ m) :
    (Float.Model.pack (.finite s m e hm)).unpack = .finite s m e hm := by
  obtain ⟨hleast, hmost, hfits, -⟩ := h
  unfold fieldBit at hfits hfull
  have hlog : m.log2 = 52 := (Nat.log2_eq_iff hm.ne').mpr ⟨by omega, by omega⟩
  have hbiased : (e + Format.binary64.exponentBias + Format.binary64.mantissaBitsWithoutImplicit).toNat =
      (e + 1075).toNat := by
    change (e + 1023 + 52).toNat = _
    omega
  have hfield : (BitVec.ofNat 11 (e + 1075).toNat).toNat = (e + 1075).toNat := by
    rw [BitVec.toNat_ofNat]
    omega
  have hmantissa : (1#1 ++ BitVec.ofNat 52 m).toNat = m := by
    have hlt : m % 2 ^ 52 < 2 ^ 52 := Nat.mod_lt _ (by decide)
    rw [BitVec.toNat_append, BitVec.toNat_ofNat]
    have h := Nat.two_pow_add_eq_or_of_lt hlt 1
    change 2 ^ 52 * 1 ||| m % 2 ^ 52 = m
    rw [← h]
    omega
  have hones : BitVec.ofNat 11 (e + 1075).toNat ≠ -1#11 := by
    rw [ne_eq, ← BitVec.toNat_inj, hfield]
    change (e + 1075).toNat ≠ 2047
    omega
  have hzero : BitVec.ofNat 11 (e + 1075).toNat ≠ 0#11 := by
    rw [ne_eq, ← BitVec.toNat_inj, hfield]
    change (e + 1075).toNat ≠ 0
    omega
  have hpack : UnpackedFloat.pack .binary64 (.finite s m e hm) =
      UnpackedFloat.packComponents .binary64 s (BitVec.ofNat 11 (e + 1075).toNat) (BitVec.ofNat 52 m) := by
    unfold UnpackedFloat.pack
    dsimp only
    rw [hbiased, hlog, if_neg (by change ¬ 2048 ≤ _; omega),
      if_pos (show 52 + 1 = Format.binary64.mantissaBits from rfl)]
  change UnpackedFloat.unpack .binary64 (UnpackedFloat.pack .binary64 (.finite s m e hm)) = _
  rw [hpack]
  unfold UnpackedFloat.unpack
  simp only [UnpackedFloat.unpackMantissa_packComponents, UnpackedFloat.unpackExponent_packComponents,
    UnpackedFloat.unpackSign_packComponents, UnpackedFloat.Sign.ofBitVec_toBitVec]
  rw [if_neg hones, if_neg hzero]
  simp only [hmantissa, hfield]
  congr 1
  change ((e + 1075).toNat : Int) - (1023 + 52) = e
  omega

theorem unpack_subnormal (s : Sign) {m : Nat} (hm : 0 < m) (h : m < fieldBit) :
    (Float.Model.pack (.finite s m (-1074) hm)).unpack = .finite s m (-1074) hm := by
  unfold fieldBit at h
  have hlog : m.log2 < 52 := (Nat.log2_lt hm.ne').mpr (by omega)
  have hmantissa : (BitVec.ofNat 52 m).toNat = m := by
    rw [BitVec.toNat_ofNat]
    omega
  have hzero : BitVec.ofNat 52 m ≠ 0#52 := by
    rw [ne_eq, ← BitVec.toNat_inj, hmantissa]
    exact hm.ne'
  have hpack : UnpackedFloat.pack .binary64 (.finite s m (-1074) hm) =
      UnpackedFloat.packComponents .binary64 s 0#11 (BitVec.ofNat 52 m) := by
    unfold UnpackedFloat.pack
    dsimp only
    rw [if_neg (by decide), if_neg (by change ¬ m.log2 + 1 = 53; omega)]
  change UnpackedFloat.unpack .binary64 (UnpackedFloat.pack .binary64 (.finite s m (-1074) hm)) = _
  rw [hpack]
  unfold UnpackedFloat.unpack
  simp only [UnpackedFloat.unpackMantissa_packComponents, UnpackedFloat.unpackExponent_packComponents,
    UnpackedFloat.unpackSign_packComponents, UnpackedFloat.Sign.ofBitVec_toBitVec]
  rw [if_neg (by decide), if_pos trivial, dif_neg hzero]
  simp only [hmantissa]
  rfl

theorem IsNumber.repack {u : UnpackedFloat} (h : IsNumber u) : (Float.Model.pack u).unpack = u := by
  cases u with
  | zero s => exact UnpackedFloat.unpack_packedZero
  | finite s m e hm =>
    rcases h.full with rfl | hfull
    · rcases Nat.lt_or_ge m fieldBit with hlt | hge
      · exact unpack_subnormal s hm hlt
      · exact unpack_normal s hm h hge
    · exact unpack_normal s hm h hfull
  | _ => exact h.elim

/-! ## Negation -/

theorem IsNumber.neg {u : UnpackedFloat} (h : IsNumber u) : IsNumber u.neg := by
  cases u <;> exact h

theorem apply_neg (s : Sign) (n : Int) : (-s).apply n = -s.apply n := by
  cases s
  · exact (Int.neg_neg n).symm
  · rfl

theorem valueOf_neg (u : UnpackedFloat) : valueOf u.neg = -valueOf u := by
  cases u <;> simp [UnpackedFloat.neg, valueOf, apply_neg]

theorem isFinite_neg {x : Float} (h : x.isFinite = true) : (-x).isFinite = true := by
  rw [← isNumber_iff] at h ⊢
  change IsNumber (Float.Model.pack x.toModel.unpack.neg).unpack
  rw [h.neg.repack]
  exact h.neg

theorem value_neg {x : Float} (h : x.isFinite = true) : value (-x) = -value x := by
  rw [← isNumber_iff] at h
  rw [value_eq, value_eq, ← valueOf_neg]
  exact congrArg valueOf h.neg.repack

/-! ## Comparison -/

theorem mul_zpow_lt {m n : Nat} {e f : Int} (hm : m < 2 * fieldBit) (hn : fieldBit ≤ n) (h : e < f) :
    (m : ℚ) * 2 ^ e < n * 2 ^ f := by
  have hm' : (m : ℚ) < 2 * fieldBit := by exact_mod_cast hm
  have hn' : (fieldBit : ℚ) ≤ n := by exact_mod_cast hn
  calc (m : ℚ) * 2 ^ e < 2 * fieldBit * 2 ^ e := by gcongr
    _ = fieldBit * 2 ^ (e + 1) := by rw [zpow_add_one₀ two_ne_zero]; ring
    _ ≤ n * 2 ^ f := by
      gcongr
      · norm_num
      · omega

theorem compare_magnitudes {m n : Nat} {e f : Int} (hm : Canonical m e) (hn : Canonical n f) :
    (compare e f).then (compare m n) = compare ((m : ℚ) * 2 ^ e) (n * 2 ^ f) := by
  symm
  rcases lt_trichotomy e f with h | rfl | h
  · have hfull : fieldBit ≤ n := hn.full.resolve_left (by have := hm.least; omega)
    rw [compare_lt_iff_lt.mpr h, compare_lt_iff_lt.mpr (mul_zpow_lt hm.fits hfull h)]
    rfl
  · have hpow : (0 : ℚ) < 2 ^ e := by positivity
    rw [compare_eq_iff_eq.mpr rfl]
    rcases lt_trichotomy m n with h | rfl | h
    · have hlt : (m : ℚ) * 2 ^ e < n * 2 ^ e := by gcongr
      rw [compare_lt_iff_lt.mpr hlt, compare_lt_iff_lt.mpr h]
      rfl
    · rw [compare_eq_iff_eq.mpr rfl, compare_eq_iff_eq.mpr rfl]
      rfl
    · have hlt : (n : ℚ) * 2 ^ e < m * 2 ^ e := by gcongr
      rw [compare_gt_iff_gt.mpr hlt, compare_gt_iff_gt.mpr h]
      rfl
  · have hfull : fieldBit ≤ m := hm.full.resolve_left (by have := hn.least; omega)
    rw [compare_gt_iff_gt.mpr h, compare_gt_iff_gt.mpr (mul_zpow_lt hn.fits hfull h)]
    rfl

theorem compare_neg_neg (x y : ℚ) : compare (-x) (-y) = (compare x y).swap := by
  rcases lt_trichotomy x y with h | rfl | h
  · rw [compare_lt_iff_lt.mpr h, compare_gt_iff_gt.mpr (neg_lt_neg h)]
    rfl
  · rw [compare_eq_iff_eq.mpr rfl, compare_eq_iff_eq.mpr rfl]
    rfl
  · rw [compare_gt_iff_gt.mpr h, compare_lt_iff_lt.mpr (neg_lt_neg h)]
    rfl

theorem compare_values {u v : UnpackedFloat} (hu : IsNumber u) (hv : IsNumber v) :
    u.compare v = some (compare (valueOf u) (valueOf v)) := by
  have hpositive {m : Nat} (hm : 0 < m) (e : Int) : 0 < valueOf (.finite .positive m e hm) := by
    simp only [valueOf, Sign.apply, Int.cast_natCast]
    positivity
  have hnegative {m : Nat} (hm : 0 < m) (e : Int) : valueOf (.finite .negative m e hm) < 0 := by
    rw [← neg_pos, ← valueOf_neg]
    exact hpositive hm e
  cases u with
  | zero s =>
    cases v with
    | zero t => exact congrArg some (compare_eq_iff_eq.mpr rfl).symm
    | finite t n f hn =>
      cases t with
      | positive => exact congrArg some (compare_lt_iff_lt.mpr (hpositive hn f)).symm
      | negative => exact congrArg some (compare_gt_iff_gt.mpr (hnegative hn f)).symm
    | _ => exact hv.elim
  | finite s m e hm =>
    cases v with
    | zero t =>
      cases s with
      | positive => exact congrArg some (compare_gt_iff_gt.mpr (hpositive hm e)).symm
      | negative => exact congrArg some (compare_lt_iff_lt.mpr (hnegative hm e)).symm
    | finite t n f hn =>
      have hsame := compare_magnitudes hu hv
      cases s <;> cases t <;> simp only [UnpackedFloat.compare, hsame]
      · rw [← compare_neg_neg]
        simp [valueOf, Sign.apply]
      · exact congrArg some (compare_lt_iff_lt.mpr ((hnegative hm e).trans (hpositive hn f))).symm
      · exact congrArg some (compare_gt_iff_gt.mpr ((hnegative hn f).trans (hpositive hm e))).symm
      · rfl
    | _ => exact hv.elim
  | _ => exact hu.elim

theorem lt_iff_value_lt {x y : Float} (hx : x.isFinite = true) (hy : y.isFinite = true) :
    x < y ↔ value x < value y := by
  rw [← isNumber_iff] at hx hy
  rw [lt_iff, value_eq, value_eq, UnpackedFloat.lt, compare_values hx hy,
    ← compare_lt_iff_lt]
  simp

theorem le_iff_value_le {x y : Float} (hx : x.isFinite = true) (hy : y.isFinite = true) :
    x ≤ y ↔ value x ≤ value y := by
  rw [← isNumber_iff] at hx hy
  have hle : x ≤ y ↔ x.toModel.unpack.le y.toModel.unpack = true := decide_eq_true_iff
  rw [hle, value_eq, value_eq, UnpackedFloat.le, compare_values hx hy, ← compare_le_iff_le]
  simp [Ordering.isLE_iff_ne_gt]

theorem beq_iff_value_eq {x y : Float} (hx : x.isFinite = true) (hy : y.isFinite = true) :
    (x == y) = true ↔ value x = value y := by
  rw [← isNumber_iff] at hx hy
  have hbeq : (x == y) = x.toModel.unpack.beq y.toModel.unpack := rfl
  rw [hbeq, value_eq, value_eq, UnpackedFloat.beq, compare_values hx hy, ← compare_eq_iff_eq]
  simp

theorem value_zero : (0 : Float).isFinite = true ∧ value 0 = 0 := by
  rw [← isNumber_iff, value_eq, unpack_zero]
  exact ⟨trivial, rfl⟩

theorem zero_literal : (0.0 : Float) = 0 := by
  decide +kernel

theorem finite_zero : (0.0 : Float).isFinite = true ∧ value 0.0 = 0 := by
  rw [zero_literal]
  exact value_zero

theorem abs_close {x : Float} (hx : x.isFinite = true) :
    (Scalar.abs x).isFinite = true ∧ value (Scalar.abs x) = |value x| := by
  unfold Scalar.abs
  have hneg : x < 0.0 ↔ value x < 0 := by rw [lt_iff_value_lt hx finite_zero.1, finite_zero.2]
  split
  · rename_i h
    exact ⟨isFinite_neg hx, by rw [value_neg hx, abs_of_neg (hneg.mp h)]⟩
  · rename_i h
    exact ⟨hx, (abs_of_nonneg (not_lt.mp (mt hneg.mpr h))).symm⟩

theorem larger_ge {x y : Float} (hx : x.isFinite = true) (hy : y.isFinite = true) :
    (Scalar.larger x y).isFinite = true ∧ value x ≤ value (Scalar.larger x y) ∧
      value y ≤ value (Scalar.larger x y) := by
  unfold Scalar.larger
  split
  · rename_i h
    exact ⟨hy, ((lt_iff_value_lt hx hy).mp h).le, le_rfl⟩
  · rename_i h
    exact ⟨hx, le_rfl, not_lt.mp (mt (lt_iff_value_lt hx hy).mpr h)⟩

/-! ## Whole numbers -/

theorem roundScaled_close (m : Nat) (e : Int) : |(roundScaled m e : ℚ) - m * 2 ^ e| ≤ 1 / 2 := by
  unfold roundScaled
  split
  · rename_i h
    obtain ⟨k, rfl⟩ := Int.eq_ofNat_of_zero_le h
    simp
  · rename_i h
    obtain ⟨k, hk⟩ := Int.eq_ofNat_of_zero_le (show 0 ≤ -e by omega)
    obtain rfl : e = -(k : Int) := by omega
    have hdiv := Nat.div_add_mod (2 * m + 2 ^ k) (2 * 2 ^ k)
    have hmod := Nat.mod_lt (2 * m + 2 ^ k) (show 0 < 2 * 2 ^ k by positivity)
    simp only [neg_neg, Int.toNat_natCast, Nat.pow_eq, zpow_neg, zpow_natCast]
    generalize (2 * m + 2 ^ k) / (2 * 2 ^ k) = q at *
    generalize (2 * m + 2 ^ k) % (2 * 2 ^ k) = r at *
    have hpow : (0 : ℚ) < 2 ^ k := by positivity
    have hdiv' : (2 * 2 ^ k * q + r : ℚ) = 2 * m + 2 ^ k := by exact_mod_cast hdiv
    have hmod' : (r : ℚ) < 2 * 2 ^ k := by exact_mod_cast hmod
    have hr : (0 : ℚ) ≤ r := by positivity
    have hm : (m : ℚ) / 2 ^ k = q + r / (2 * 2 ^ k) - 1 / 2 := by
      field_simp
      linarith
    have hlt : (r : ℚ) / (2 * 2 ^ k) < 1 := (div_lt_one (by positivity)).mpr hmod'
    have hge : (0 : ℚ) ≤ r / (2 * 2 ^ k) := by positivity
    rw [← div_eq_mul_inv, hm, abs_le]
    constructor <;> linarith

theorem reading_of_value {x : Float} (hx : x.isFinite = true) :
    ∃ negative m e, reading x = .finite negative m e ∧ value x = signed negative m * 2 ^ e := by
  obtain ⟨negative, m, e, h⟩ := reading_of_isFinite hx
  exact ⟨negative, m, e, h, by rw [value, h]⟩

theorem abs_signed (negative : Bool) (m : Nat) (e : Int) :
    |(signed negative m : ℚ) * 2 ^ e| = m * 2 ^ e := by
  rw [abs_mul, abs_of_pos (by positivity : (0 : ℚ) < 2 ^ e)]
  cases negative <;> simp [signed]

theorem roundToSteps_close {x : Float} (hx : x.isFinite = true) (hrange : |value x| ≤ 2 ^ 62) :
    |(roundToSteps x : ℚ) - value x| ≤ 1 / 2 := by
  obtain ⟨negative, m, e, hreading, hvalue⟩ := reading_of_value hx
  have hclose := roundScaled_close m e
  rw [hvalue, abs_signed] at hrange
  have hfits : roundScaled m e < 2 ^ 63 := by
    have hle := (abs_le.mp hclose).2
    have hlt : (roundScaled m e : ℚ) < 2 ^ 63 := by linarith
    exact_mod_cast hlt
  have hsteps : roundToSteps x = signed negative (roundScaled m e) := by
    rw [roundToSteps, hreading]
    unfold minSteps maxSteps signed
    dsimp only
    split <;> omega
  rw [hsteps, hvalue]
  cases negative with
  | false => simpa [signed] using hclose
  | true =>
    rw [← abs_neg] at hclose
    convert hclose using 2
    simp [signed]
    ring

theorem value_le_of_roundToCount {x : Float} (hx : x.isFinite = true) {n : Nat} (hn : n < maxCount)
    (h : roundToCount x ≤ n) : value x ≤ n + 1 / 2 := by
  obtain ⟨negative, m, e, hreading, hvalue⟩ := reading_of_value hx
  have hpow : (0 : ℚ) ≤ m * 2 ^ e := by positivity
  rw [hvalue]
  cases negative with
  | true =>
    simp only [signed, if_true]
    push_cast
    linarith [(Nat.cast_nonneg n : (0 : ℚ) ≤ n)]
  | false =>
    rw [roundToCount, hreading] at h
    have hle : roundScaled m e ≤ n := by
      simp only [Bool.false_eq_true, if_false] at h
      omega
    have hclose := (abs_le.mp (roundScaled_close m e)).1
    have hcast : (roundScaled m e : ℚ) ≤ n := by exact_mod_cast hle
    simp only [signed, Bool.false_eq_true, if_false]
    push_cast
    linarith

end Engraver.Double
