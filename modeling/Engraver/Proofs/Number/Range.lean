import Engraver.Proofs.Number.Arithmetic

/-!
# Results in range

A rounded number is packed as an infinity only if its exponent is too large. So a quotient by four or more is
finite, and so is every sum that stays a quarter of the last unit below the powers that doubles do not reach.
-/

namespace Engraver.Double

open Float.Model
open Float.Model.UnpackedFloat (Sign ExtendedMantissa Accuracy)

/-! ## Packing -/

theorem isFinite_components (s : Sign) {e : BitVec 11} (m : BitVec 52) (he : e ≠ -1#11) :
    (UnpackedFloat.unpack .binary64 (UnpackedFloat.packComponents .binary64 s e m)).isFinite = true := by
  unfold UnpackedFloat.unpack
  simp only [UnpackedFloat.unpackExponent_packComponents, UnpackedFloat.unpackMantissa_packComponents]
  rw [if_neg he]
  split
  · split <;> rfl
  · rfl

theorem IsNumber.isFinite_repack {u : UnpackedFloat} (hu : IsNumber u) :
    (Float.Model.pack u).unpack.isFinite = true := by
  rw [hu.repack]
  cases u <;> first | rfl | exact hu.elim

theorem isFinite_pack (s : Sign) {m : Nat} {e : Int} (hm : 0 < m) (he : e ≤ 971) :
    (Float.Model.pack (.finite s m e hm)).unpack.isFinite = true := by
  have hbiased : ¬ 2 ^ 11 ≤ (e + 1023 + 52).toNat + 1 := by omega
  change (UnpackedFloat.unpack .binary64 (UnpackedFloat.pack .binary64 (.finite s m e hm))).isFinite = true
  unfold UnpackedFloat.pack
  dsimp only
  rw [if_neg (show ¬ 2 ^ 11 ≤ (e + Format.binary64.exponentBias + (52 : Nat)).toNat + 1 from hbiased)]
  split
  · apply isFinite_components
    intro h
    have hfield := congrArg BitVec.toNat h
    change (e + 1023 + 52).toNat % 2048 = 2047 at hfield
    omega
  · exact isFinite_components _ _ (by decide)

/-! ## Shifting -/

theorem mantissa_shiftRight (em : ExtendedMantissa) (k : Nat) : (em >>> k).mantissa = em.mantissa / 2 ^ k := by
  induction k with
  | zero => exact (Nat.div_one _).symm
  | succ k ih =>
    rw [pow_succ, ← Nat.div_div_eq_div_mul, ← ih]
    rfl

theorem roundedMantissa_le (em : ExtendedMantissa) : em.roundedMantissa ≤ em.mantissa + 1 := by
  obtain ⟨m, half, rest⟩ := em
  cases half <;> cases rest <;>
    simp only [ExtendedMantissa.roundedMantissa, ExtendedMantissa.accuracy, Accuracy.roundToNearestEven] <;>
    omega

theorem log2_le_of_lt {m j : Nat} (h : m < 2 ^ (j + 1)) : m.log2 ≤ j := by
  rcases Nat.eq_zero_or_pos m with rfl | hm
  · exact Nat.zero_le j
  · exact Nat.le_of_lt_succ ((Nat.log2_lt hm.ne').mpr h)

theorem shiftToTargetExponent_exponent (m : Nat) (e : Int) (accuracy : Accuracy) :
    (UnpackedFloat.shiftToTargetExponent .binary64 m e accuracy).2 = max e (unit m e) := by
  change e + ((Format.binary64.targetExponent (totalExponent m e) - e).toNat : Int) = _
  rw [targetExponent_eq]
  omega

theorem shiftToTargetExponent_mantissa (m : Nat) (e : Int) (accuracy : Accuracy) :
    (UnpackedFloat.shiftToTargetExponent .binary64 m e accuracy).1.mantissa =
      m / 2 ^ (unit m e - e).toNat := by
  have hstart : (ExtendedMantissa.ofMantissaAndAccuracy m accuracy).mantissa = m := by
    rcases accuracy with _ | _ | _ | _ <;> rfl
  rw [← targetExponent_eq, UnpackedFloat.shiftToTargetExponent, UnpackedFloat.shiftToExponent]
  exact (mantissa_shiftRight _ _).trans (by rw [hstart])

theorem unit_le {m j : Nat} {e : Int} (hm : m < 2 ^ (j + 1)) (hj : j + e ≤ 1022) : unit m e ≤ 970 := by
  have hlog := log2_le_of_lt hm
  unfold unit
  omega

theorem rounded_lt {m j : Nat} (e : Int) (accuracy : Accuracy) (hm : m < 2 ^ (j + 1)) :
    (UnpackedFloat.shiftToTargetExponent .binary64 m e accuracy).1.roundedMantissa <
      2 ^ (j + 1 - (unit m e - e).toNat + 1) := by
  have hrounded := roundedMantissa_le (UnpackedFloat.shiftToTargetExponent .binary64 m e accuracy).1
  rw [shiftToTargetExponent_mantissa] at hrounded
  obtain ⟨k, hk⟩ : ∃ k, (unit m e - e).toNat = k := ⟨_, rfl⟩
  rw [hk] at hrounded ⊢
  have hleft : m / 2 ^ k < 2 ^ (j + 1 - k) := by
    rw [Nat.div_lt_iff_lt_mul (Nat.two_pow_pos k), ← pow_add]
    exact hm.trans_le (Nat.pow_le_pow_right (by decide) (by omega))
  have hpos := Nat.two_pow_pos (j + 1 - k)
  rw [pow_succ]
  omega

theorem isFinite_round (s : Sign) {m j : Nat} {e : Int} (accuracy : Accuracy) (hm : m < 2 ^ (j + 1))
    (hj : j + e ≤ 1021) (he : e ≤ 970) :
    (Float.Model.pack (UnpackedFloat.roundWithAccuracy .binary64 s m e accuracy)).unpack.isFinite = true := by
  have hunit := unit_le hm (by omega : j + e ≤ 1022)
  have hrounded := rounded_lt e accuracy hm
  have hexponent := shiftToTargetExponent_exponent m e accuracy
  unfold UnpackedFloat.roundWithAccuracy
  -- The carry of a rounding can ask for one more shift, which still ends at an exponent of at most 970.
  obtain ⟨⟨em, e'⟩, hshift⟩ : ∃ shifted, UnpackedFloat.shiftToTargetExponent .binary64 m e accuracy = shifted :=
    ⟨_, rfl⟩
  rw [hshift] at hrounded hexponent ⊢
  have hlast := unit_le hrounded (e := e') (by dsimp only at hexponent; omega)
  dsimp only at hexponent hlast ⊢
  split
  · exact IsNumber.isFinite_repack (u := .zero s) trivial
  · apply isFinite_pack
    rw [shiftToTargetExponent_exponent]
    omega

/-! ## Quotients -/

theorem log2_of_four_le {s : Sign} {n : Nat} {f : Int} (hn : 0 < n) (h : 4 ≤ (s.apply n : ℚ) * 2 ^ f) :
    2 ≤ n.log2 + f := by
  have hhigh : (2 : ℚ) ^ (2 : Int) < 2 ^ (n.log2 + 1 + f : Int) := by
    calc (2 : ℚ) ^ (2 : Int) = 4 := by norm_num
      _ ≤ |(s.apply n : ℚ) * 2 ^ f| := h.trans (le_abs_self _)
      _ = n * 2 ^ f := abs_apply s n f
      _ < 2 ^ (n.log2 + 1 : Int) * 2 ^ f := by gcongr; exact (log2_bounds hn).2
      _ = 2 ^ (n.log2 + 1 + f : Int) := (zpow_add₀ two_ne_zero _ _).symm
  have hlt := (zpow_lt_zpow_iff_right₀ one_lt_two).mp hhigh
  omega

theorem quotient_lt {m n : Nat} (hn : 0 < n) (k : Nat) :
    (m <<< k) / n < 2 ^ (m.log2 + k - n.log2 + 1) := by
  have hm : m < 2 ^ (m.log2 + 1) := Nat.lt_log2_self
  have hle : m.log2 + 1 + k ≤ m.log2 + k - n.log2 + 1 + n.log2 := by omega
  rw [Nat.div_lt_iff_lt_mul hn, Nat.shiftLeft_eq]
  calc m * 2 ^ k < 2 ^ (m.log2 + 1) * 2 ^ k := by gcongr
    _ = 2 ^ (m.log2 + 1 + k) := (pow_add _ _ _).symm
    _ ≤ 2 ^ (m.log2 + k - n.log2 + 1 + n.log2) := Nat.pow_le_pow_right two_pos hle
    _ = 2 ^ (m.log2 + k - n.log2 + 1) * 2 ^ n.log2 := pow_add _ _ _
    _ ≤ 2 ^ (m.log2 + k - n.log2 + 1) * n := by gcongr; exact Nat.log2_self_le hn.ne'

theorem isFinite_div {x y : Float} (hx : x.isFinite = true) (hy : y.isFinite = true) (h : 4 ≤ value y) :
    (x / y).isFinite = true := by
  change (Float.Model.pack
    (UnpackedFloat.div .binary64 x.toModel.unpack y.toModel.unpack)).unpack.isFinite = true
  rw [← isNumber_iff] at hx hy
  rw [value_eq] at h
  cases hv : y.toModel.unpack with
  | finite t n f hn =>
    rw [hv] at h
    cases hu : x.toModel.unpack with
    | finite s m e hm =>
      have hhigh := log2_of_four_le hn h
      rw [hu] at hx
      have hlog : m.log2 ≤ 52 := log2_le_of_lt hx.fits
      have htarget : Format.binary64.targetExponent (totalExponent m e - totalExponent n f) =
          max (m.log2 + e - (n.log2 + f) - 53) (-1074) := by
        change max ((m.log2 + 1 + e : Int) - (n.log2 + 1 + f) - 53) (-1074) = _
        congr 1
        omega
      have hmost := hx.most
      have hquotient := quotient_lt (m := m) hn
      rw [UnpackedFloat.div, UnpackedFloat.divCore, htarget]
      exact isFinite_round _ _ (hquotient _) (by omega) (by omega)
    | zero s => exact IsNumber.isFinite_repack (u := .zero (s / t)) trivial
    | _ =>
      rw [hu] at hx
      exact hx.elim
  | zero t =>
    rw [hv] at h
    norm_num [valueOf] at h
  | _ =>
    rw [hv] at hy
    exact hy.elim

/-! ## Positive numbers -/

def IsPositive (x : Float) : Prop := x.isFinite = true ∧ 0 < x

instance (x : Float) : Decidable (IsPositive x) := inferInstanceAs (Decidable (_ ∧ _))

theorem pos_of_not_le {x : Float} (hx : x.isFinite = true) (h : ¬ x ≤ 0) : 0 < x := by
  rw [← isNumber_iff] at hx
  have hle : ¬ x.toModel.unpack.le (.zero .positive) = true := by
    rw [← unpack_zero]
    exact fun hle => h (decide_eq_true_iff.mpr hle)
  rw [lt_iff, unpack_zero]
  cases hu : x.toModel.unpack with
  | finite s m e hm =>
    rw [hu] at hle
    cases s with
    | positive => rfl
    | negative => exact absurd rfl hle
  | zero s =>
    rw [hu] at hle
    exact absurd rfl hle
  | _ =>
    rw [hu] at hx
    exact hx.elim

theorem pos_of_ne_zero {x : Float} (hx : x.isFinite = true) (hsign : OfSign .positive x.toModel.unpack)
    (hne : (x != 0) = true) : 0 < x := by
  rw [← isNumber_iff] at hx
  rw [bne, Bool.not_eq_true', ← Bool.not_eq_true, beq_zero_iff] at hne
  rw [lt_iff, unpack_zero]
  cases hu : x.toModel.unpack with
  | finite s m e hm =>
    rw [hu] at hsign
    cases hsign
    rfl
  | zero s => exact absurd ⟨s, hu⟩ hne
  | _ =>
    rw [hu] at hx
    exact hx.elim

theorem IsPositive.div {x y : Float} (hx : IsPositive x) (hy : y.isFinite = true) (h : 4 ≤ value y)
    (hne : (x / y != 0) = true) : IsPositive (x / y) := by
  have hfinite := isFinite_div hx.1 hy h
  refine ⟨hfinite, pos_of_ne_zero hfinite ?_ hne⟩
  have hy' : 0 < y := (lt_iff_value_lt finite_zero.1 hy).mpr (by rw [finite_zero.2]; linarith)
  obtain ⟨n, f, hn, hv⟩ := unpack_of_positive hy hy'
  change OfSign .positive (Float.Model.pack (UnpackedFloat.div .binary64 x.toModel.unpack _)).unpack
  rw [hv]
  exact ((ofSign_of_positive hx.1 hx.2).div .positive n f hn).repack

/-! ## Sums -/

/-- Half a unit above the largest finite double. -/
def overflowBound : ℚ := 2 ^ (1024 : Int) - 2 ^ (970 : Int)

theorem Shaped.isFinite {s : Sign} {u : UnpackedFloat} {n : Nat} {f : Int} (h : Shaped s u n f)
    (hn : (n : ℚ) * 2 ^ f < 2 ^ (1024 : Int)) : (Float.Model.pack u).unpack.isFinite = true := by
  obtain ⟨rfl, hleast, hfits, hfull⟩ := h
  split
  · exact IsNumber.isFinite_repack (u := .zero s) trivial
  · apply isFinite_pack
    by_contra hf
    -- At an exponent past 971 the mantissa is full, and the number has reached `2 ^ 1024`.
    have hbits : (2 : ℚ) ^ (52 : Int) ≤ n := by
      rcases hfull with hfull | hfull
      · omega
      · rw [show (52 : Int) = (52 : Nat) from rfl, zpow_natCast]
        exact_mod_cast hfull
    have hlarge : (2 : ℚ) ^ (1024 : Int) ≤ n * 2 ^ f := by
      calc (2 : ℚ) ^ (1024 : Int) = 2 ^ (52 : Int) * 2 ^ (972 : Int) := zpow_add₀ two_ne_zero 52 972
        _ ≤ n * 2 ^ f := by
          gcongr
          · exact one_le_two
          · omega
    exact absurd hn (not_lt.mpr hlarge)

theorem isFinite_round_exact (s : Sign) {m : Nat} {e : Int} (hm : 0 < m) (hunit : e ≤ unit m e)
    (h : (m : ℚ) * 2 ^ e < overflowBound) :
    (Float.Model.pack (UnpackedFloat.roundWithAccuracy .binary64 s m e .exact)).unpack.isFinite = true := by
  obtain ⟨n, f, hshaped, hclose, -⟩ := round_shaped s hunit
  rw [overflowBound] at h
  have hlog : (2 : ℚ) ^ (m.log2 + e : Int) < 2 ^ (1024 : Int) := by
    calc (2 : ℚ) ^ (m.log2 + e : Int) = 2 ^ (m.log2 : Int) * 2 ^ e := zpow_add₀ two_ne_zero _ _
      _ ≤ m * 2 ^ e := by gcongr; exact (log2_bounds hm).1
      _ < 2 ^ (1024 : Int) - 2 ^ (970 : Int) := h
      _ < 2 ^ (1024 : Int) := sub_lt_self _ (by positivity)
  have hmost := (zpow_lt_zpow_iff_right₀ one_lt_two).mp hlog
  have hhalf : (2 : ℚ) ^ unit m e / 2 ≤ 2 ^ (970 : Int) := by
    calc (2 : ℚ) ^ unit m e / 2 ≤ 2 ^ (971 : Int) / 2 := by
          gcongr
          · exact one_le_two
          · unfold unit
            omega
      _ = 2 ^ (970 : Int) := (zpow_sub_one₀ two_ne_zero 971).symm
  apply hshaped.isFinite
  calc (n : ℚ) * 2 ^ f ≤ m * 2 ^ e + 2 ^ unit m e / 2 := by linarith only [(abs_le.mp hclose).2]
    _ < 2 ^ (1024 : Int) := by linarith only [h, hhalf]

theorem isFinite_round_number (s : Sign) {m : Nat} {e : Int} (hm : 0 < m)
    (h : (m : ℚ) * 2 ^ e < overflowBound) :
    (Float.Model.pack (UnpackedFloat.round .binary64 s m e)).unpack.isFinite = true := by
  obtain ⟨n, f, hn, hunit, -, hround, hvalue⟩ := exists_round_eq s (e := e) hm
  have hsame : (n : ℚ) * 2 ^ f = m * 2 ^ e := by simpa [Sign.apply] using hvalue .positive
  rw [hround]
  exact isFinite_round_exact s hn hunit (hsame ▸ h)

theorem isFinite_normalize {z : Int} {e : Int} (t : Sign) (h : |(z : ℚ) * 2 ^ e| < overflowBound) :
    (Float.Model.pack (UnpackedFloat.normalize .binary64 z e t)).unpack.isFinite = true := by
  rw [abs_mul, abs_of_pos (by positivity : (0 : ℚ) < 2 ^ e)] at h
  unfold UnpackedFloat.normalize
  split <;> rename_i hz
  · rw [Int.compare_eq_lt] at hz
    obtain ⟨n, rfl⟩ : ∃ n : Nat, z = -n := ⟨z.natAbs, by omega⟩
    rw [neg_neg, Int.toNat_natCast]
    exact isFinite_round_number .negative (by omega) (by simpa using h)
  · exact IsNumber.isFinite_repack (u := .zero t) trivial
  · rw [Int.compare_eq_gt] at hz
    obtain ⟨n, rfl⟩ := Int.eq_ofNat_of_zero_le hz.le
    exact isFinite_round_number .positive (by omega) (by simpa using h)

theorem isFinite_add {x y : Float} (hx : x.isFinite = true) (hy : y.isFinite = true)
    (h : |value x + value y| < overflowBound) : (x + y).isFinite = true := by
  change (Float.Model.pack
    (UnpackedFloat.add .binary64 x.toModel.unpack y.toModel.unpack)).unpack.isFinite = true
  rw [← isNumber_iff] at hx hy
  rw [value_eq, value_eq] at h
  cases hu : x.toModel.unpack with
  | finite s m e hm =>
    cases hv : y.toModel.unpack with
    | finite t n f hn =>
      obtain ⟨z, hadd, hsum⟩ := exists_add_eq s t hm hn (e := e) (f := f)
      rw [hu, hv, hsum] at h
      rw [hadd]
      exact isFinite_normalize _ h
    | zero t =>
      rw [hu] at hx
      exact hx.isFinite_repack
    | _ =>
      rw [hv] at hy
      exact hy.elim
  | zero s =>
    cases hv : y.toModel.unpack with
    | finite t n f hn =>
      rw [hv] at hy
      exact hy.isFinite_repack
    | zero t =>
      simp only [UnpackedFloat.add]
      split
      · exact IsNumber.isFinite_repack (u := .zero s) trivial
      · exact IsNumber.isFinite_repack (u := .zero .positive) trivial
    | _ =>
      rw [hv] at hy
      exact hy.elim
  | _ =>
    rw [hu] at hx
    exact hx.elim

theorem isFinite_sub {x y : Float} (hx : x.isFinite = true) (hy : y.isFinite = true)
    (h : |value x - value y| < overflowBound) : (x - y).isFinite = true := by
  rw [sub_eq_add hy]
  exact isFinite_add hx (isFinite_neg hy) (by rwa [value_neg hy, ← sub_eq_add_neg])

theorem isFinite_mul {x y : Float} (hx : x.isFinite = true) (hy : y.isFinite = true)
    (h : |value x * value y| < overflowBound) : (x * y).isFinite = true := by
  change (Float.Model.pack
    (UnpackedFloat.mul .binary64 x.toModel.unpack y.toModel.unpack)).unpack.isFinite = true
  rw [← isNumber_iff] at hx hy
  rw [value_eq, value_eq] at h
  cases hu : x.toModel.unpack with
  | finite s m e hm =>
    rw [hu] at hx
    cases hv : y.toModel.unpack with
    | finite t n f hn =>
      rw [hv] at hy
      have hsize : ((m * n : Nat) : ℚ) * 2 ^ (e + f) =
          |valueOf (.finite s m e hm) * valueOf (.finite t n f hn)| := by
        rw [abs_mul, valueOf, valueOf, abs_apply, abs_apply, zpow_add₀ two_ne_zero]
        push_cast
        ring
      rw [hu, hv, ← hsize] at h
      exact isFinite_round_exact (s * t) (Nat.mul_pos hm hn) (le_unit_mul hm hn hx hy) h
    | zero t => exact IsNumber.isFinite_repack (u := .zero (s * t)) trivial
    | _ =>
      rw [hv] at hy
      exact hy.elim
  | zero s =>
    cases hv : y.toModel.unpack with
    | finite t n f hn => exact IsNumber.isFinite_repack (u := .zero (s * t)) trivial
    | zero t => exact IsNumber.isFinite_repack (u := .zero (s * t)) trivial
    | _ =>
      rw [hv] at hy
      exact hy.elim
  | _ =>
    rw [hu] at hx
    exact hx.elim

theorem two_zpow_1024 : (2 : ℚ) ^ (1024 : Int) = 2 ^ 53 * 2 ^ (971 : Int) := by
  rw [← zpow_natCast, ← zpow_add₀ two_ne_zero]
  rfl

theorem two_zpow_970_le_overflowBound : (2 : ℚ) ^ (970 : Int) ≤ overflowBound := by
  have hpow : (2 : ℚ) ^ (1024 : Int) = 2 ^ (970 : Int) * 2 ^ (54 : Int) := zpow_add₀ two_ne_zero 970 54
  have hpos : (0 : ℚ) < 2 ^ (970 : Int) := zpow_pos two_pos _
  rw [overflowBound, hpow]
  generalize (2 : ℚ) ^ (970 : Int) = p at hpos
  norm_num
  linarith

theorem abs_value_le {x : Float} (hx : x.isFinite = true) : |value x| ≤ (2 ^ 53 - 1) * 2 ^ (971 : Int) := by
  have hpos (e : Int) : (0 : ℚ) ≤ 2 ^ e := zpow_nonneg two_pos.le e
  rw [← isNumber_iff] at hx
  rw [value_eq]
  cases hu : x.toModel.unpack with
  | finite s m e hm =>
    rw [hu] at hx
    have hfits : (m : ℚ) ≤ 2 ^ 53 - 1 := by
      have hm : m + 1 ≤ 2 ^ 53 := hx.fits
      have hcast : ((m + 1 : Nat) : ℚ) ≤ (2 ^ 53 : Nat) := Nat.cast_le.mpr hm
      push_cast at hcast
      linarith
    have hexponent : (2 : ℚ) ^ e ≤ 2 ^ (971 : Int) := zpow_le_zpow_right₀ one_le_two hx.most
    calc |valueOf (.finite s m e _)| = m * 2 ^ e := abs_apply s m e
      _ ≤ (2 ^ 53 - 1) * 2 ^ (971 : Int) := mul_le_mul hfits hexponent (hpos e) (by norm_num)
  | _ =>
    rw [valueOf, abs_zero]
    · exact mul_nonneg (by norm_num) (hpos 971)
    · simp

theorem abs_value_lt {x : Float} (hx : x.isFinite = true) : |value x| < overflowBound := by
  refine (abs_value_le hx).trans_lt ?_
  rw [overflowBound, two_zpow_1024]
  have hdouble : (2 : ℚ) ^ (971 : Int) = 2 ^ (970 : Int) * 2 := zpow_add_one₀ two_ne_zero 970
  have hpos : (0 : ℚ) < 2 ^ (970 : Int) := zpow_pos two_pos _
  rw [hdouble]
  generalize (2 : ℚ) ^ (970 : Int) = half at hpos
  linarith only [hpos]

theorem isFinite_add_of_small {x d : Float} (hx : x.isFinite = true) (hd : d.isFinite = true)
    (h : |value d| < 2 ^ (970 : Int)) : (x + d).isFinite = true := by
  have hlargest := abs_value_le hx
  have hdouble : (2 : ℚ) ^ (971 : Int) = 2 ^ (970 : Int) * 2 := zpow_add_one₀ two_ne_zero 970
  apply isFinite_add hx hd
  rw [overflowBound, two_zpow_1024]
  generalize (2 : ℚ) ^ (971 : Int) = unit at hlargest hdouble ⊢
  generalize (2 : ℚ) ^ (970 : Int) = half at h hdouble ⊢
  linarith [abs_add_le (value x) (value d)]

end Engraver.Double
