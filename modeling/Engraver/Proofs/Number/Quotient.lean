import Engraver.Proofs.Number.Exact

/-!
# Shares of a whole

A quotient of doubles is rounded to the nearest double, as a sum is, and so is a count. So a part of a whole,
counted and divided, is a number from zero to one.
-/

namespace Engraver.Double

open Float.Model
open Float.Model.UnpackedFloat (Sign ExtendedMantissa)

/-! ## Nearest and bounds -/

theorem fits_zero : Fits 0 := ⟨0, by decide, ⟨0, by simp⟩, by norm_num⟩

theorem fits_natCast {n : Nat} (h : n < 2 ^ 53) : Fits n := by
  refine ⟨0, by decide, ⟨n, by simp⟩, ?_⟩
  rw [Nat.abs_cast, zpow_zero, mul_one]
  exact_mod_cast h

section Bounds

variable {r r' v v' w : ℚ}

theorem Nearest.le (h : Nearest r v) (hw : Fits w) (hv : v ≤ w) : r ≤ w := by
  have hnear := h w hw
  rw [abs_of_nonneg (sub_nonneg.mpr hv)] at hnear
  linarith [le_abs_self (r - v)]

theorem Nearest.ge (h : Nearest r v) (hw : Fits w) (hv : w ≤ v) : w ≤ r := by
  have hnear := h w hw
  rw [abs_of_nonpos (sub_nonpos.mpr hv)] at hnear
  linarith [neg_abs_le (r - v)]

theorem Nearest.mono (h : Nearest r v) (h' : Nearest r' v') (hr : Fits r) (hr' : Fits r') (hv : v < v') :
    r ≤ r' := by
  by_contra hlt
  -- If it did not, either would be nearer to the other's number.
  have hleft : r' < v := by
    by_contra hle
    exact hlt (h.le hr' (not_lt.mp hle))
  have hright : v' < r := by
    by_contra hle
    exact hlt (h'.ge hr (not_lt.mp hle))
  have hnear := h r' hr'
  have hnear' := h' r hr
  rw [abs_of_pos (by linarith), abs_of_neg (by linarith)] at hnear
  rw [abs_of_neg (by linarith), abs_of_pos (by linarith)] at hnear'
  linarith

end Bounds

/-! ## Quotients -/

theorem stands_quotient (m : Nat) {n : Nat} (hn : 0 < n) :
    Stands (.ofMantissaAndAccuracy (m / n) (UnpackedFloat.accuracyOfFraction (m % n) n)) ((m : ℚ) / n) := by
  have hpos : (0 : ℚ) < n := by exact_mod_cast hn
  obtain ⟨q, hq⟩ : ∃ q, m / n = q := ⟨_, rfl⟩
  obtain ⟨rest, hrest⟩ : ∃ rest, m % n = rest := ⟨_, rfl⟩
  have hlt : rest < n := hrest ▸ Nat.mod_lt m hn
  have hvalue : (m : ℚ) / n = q + rest / n := by
    rw [div_eq_iff hpos.ne', add_mul, div_mul_cancel₀ _ hpos.ne', ← hq, ← hrest]
    exact_mod_cast (Nat.div_add_mod' m n).symm
  rw [hq, hrest, hvalue, UnpackedFloat.accuracyOfFraction]
  split
  · rename_i hzero
    simp [Stands, ExtendedMantissa.ofMantissaAndAccuracy, hzero]
  · rename_i hne
    have hsome : (0 : ℚ) < rest / n := by
      have : (0 : ℚ) < rest := by exact_mod_cast Nat.pos_of_ne_zero hne
      positivity
    rcases hcompare : compare (2 * rest) n with _ | _ | _ <;>
      simp only [Stands, ExtendedMantissa.ofMantissaAndAccuracy]
    · have hhalf : ((2 * rest : Nat) : ℚ) < n := by exact_mod_cast Nat.compare_eq_lt.mp hcompare
      push_cast at hhalf
      refine ⟨by linarith, add_lt_add_right ?_ _⟩
      rw [div_lt_iff₀ hpos]
      linarith
    · have hhalf : ((2 * rest : Nat) : ℚ) = n := by exact_mod_cast Nat.compare_eq_eq.mp hcompare
      push_cast at hhalf
      congr 1
      rw [div_eq_iff hpos.ne']
      linarith
    · have hhalf : (n : ℚ) < (2 * rest : Nat) := by exact_mod_cast Nat.compare_eq_gt.mp hcompare
      have hwhole : (rest : ℚ) < n := by exact_mod_cast hlt
      push_cast at hhalf
      refine ⟨add_lt_add_right ?_ _, add_lt_add_right ?_ _⟩
      · rw [lt_div_iff₀ hpos]
        linarith
      · rwa [div_lt_one hpos]

theorem quotient_unit {m n : Nat} (hm : 0 < m) (hn : 0 < n) {d t : Int}
    (ht : t = min d (max (m.log2 + d - n.log2 - 53) (-1074))) :
    t ≤ unit ((m <<< (d - t).toNat) / n) t := by
  rcases le_or_gt t (-1074) with hleast | hfull
  · exact hleast.trans (le_max_right _ _)
  · obtain ⟨k, hk⟩ := Int.eq_ofNat_of_zero_le (show 0 ≤ d - t by omega)
    have hbits : n.log2 + 53 ≤ m.log2 + k := by omega
    have hquotient : 2 ^ 52 ≤ (m <<< k) / n := by
      rw [Nat.le_div_iff_mul_le hn, Nat.shiftLeft_eq]
      calc 2 ^ 52 * n ≤ 2 ^ 52 * 2 ^ (n.log2 + 1) := Nat.mul_le_mul_left _ Nat.lt_log2_self.le
        _ = 2 ^ (n.log2 + 53) := by rw [← pow_add]; congr 1; omega
        _ ≤ 2 ^ (m.log2 + k) := Nat.pow_le_pow_right two_pos hbits
        _ = 2 ^ m.log2 * 2 ^ k := pow_add _ _ _
        _ ≤ m * 2 ^ k := Nat.mul_le_mul_right _ (Nat.log2_self_le hm.ne')
    have hlog : 52 ≤ ((m <<< k) / n).log2 := (Nat.le_log2 (by omega)).mpr hquotient
    rw [hk, Int.toNat_natCast]
    unfold unit
    omega

theorem exists_div_eq (s t : Sign) {m n : Nat} {e f : Int} (hm : 0 < m) (hn : 0 < n) :
    ∃ (q : Nat) (u : Int) (accuracy : UnpackedFloat.Accuracy) (y : ℚ),
      UnpackedFloat.div .binary64 (.finite s m e hm) (.finite t n f hn) =
        UnpackedFloat.roundWithAccuracy .binary64 (s / t) q u accuracy ∧
      u ≤ unit q u ∧ Stands (.ofMantissaAndAccuracy q accuracy) y ∧ y * 2 ^ u = m * 2 ^ e / (n * 2 ^ f) := by
  obtain ⟨u, hu⟩ : ∃ u, u = min (e - f) (max (m.log2 + (e - f) - n.log2 - 53) (-1074)) := ⟨_, rfl⟩
  have htarget : min (e - f) (Format.binary64.targetExponent (totalExponent m e - totalExponent n f)) = u := by
    rw [hu]
    change min (e - f) (max ((m.log2 + 1 + e : Int) - (n.log2 + 1 + f) - 53) (-1074)) = _
    congr 2
    omega
  refine ⟨_, u, _, _, ?_, quotient_unit hm hn hu, stands_quotient (m <<< (e - f - u).toNat) hn, ?_⟩
  · rw [UnpackedFloat.div, UnpackedFloat.divCore, htarget]
  · obtain ⟨k, hk⟩ := Int.eq_ofNat_of_zero_le (show 0 ≤ e - f - u by omega)
    have hpow : (2 : ℚ) ^ k * 2 ^ u * 2 ^ f = 2 ^ e := by
      rw [← zpow_natCast, ← zpow_add₀ two_ne_zero, ← zpow_add₀ two_ne_zero]
      congr 1
      omega
    have hn' : (n : ℚ) ≠ 0 := by exact_mod_cast hn.ne'
    rw [hk, Int.toNat_natCast, Nat.shiftLeft_eq, eq_div_iff (by positivity), ← hpow]
    push_cast
    field_simp

theorem apply_div (s t : Sign) (m n : ℚ) : s.apply 1 * m / (t.apply 1 * n) = (s / t).apply 1 * (m / n) := by
  have hsign : ((s / t).apply 1 : ℚ) = s.apply 1 / t.apply 1 := by
    cases s <;> cases t <;> simp [Sign.apply] <;> rfl
  rw [hsign, mul_div_mul_comm]

theorem exists_of_value_ne_zero {y : Float} (hy : y.isFinite = true) (h : value y ≠ 0) :
    ∃ t n f hn, y.toModel.unpack = .finite t n f hn := by
  rw [← isNumber_iff] at hy
  rw [value_eq] at h
  cases hv : y.toModel.unpack with
  | finite t n f hn => exact ⟨t, n, f, hn, rfl⟩
  | zero t =>
    rw [hv] at h
    exact absurd rfl h
  | _ =>
    rw [hv] at hy
    exact hy.elim

/-- A quotient is the nearest double, unless it overflows. -/
theorem div_nearest {x y : Float} (hx : x.isFinite = true) (hy : y.isFinite = true) (hne : value y ≠ 0)
    (h : (x / y).isFinite = true) : Nearest (value (x / y)) (value x / value y) := by
  obtain ⟨t, n, f, hn, hv⟩ := exists_of_value_ne_zero hy hne
  have hquotient : (x / y).toModel.unpack =
      (Float.Model.pack (UnpackedFloat.div .binary64 x.toModel.unpack y.toModel.unpack)).unpack := rfl
  have hnumber := (isNumber_iff (x / y)).mpr h
  rw [← isNumber_iff] at hx
  rw [hquotient] at hnumber
  rw [value_eq, value_eq x, value_eq y, hquotient]
  rw [hv] at hnumber ⊢
  cases hu : x.toModel.unpack with
  | finite s m e hm =>
    obtain ⟨q, u, accuracy, z, hdiv, hunit, hz, hvalue⟩ := exists_div_eq s t hm hn (e := e) (f := f)
    rw [hu, hdiv] at hnumber
    rw [hdiv]
    convert round_stands_nearest (s / t) hunit hz hnumber using 1
    rw [hvalue, ← apply_div, valueOf, valueOf, apply_natCast, apply_natCast t, mul_assoc, mul_assoc]
  | zero s =>
    have hzero : IsNumber (.zero (s / t)) := trivial
    rw [UnpackedFloat.div, hzero.repack]
    simp only [valueOf, zero_div]
    exact rounds_nearest.same 0
  | _ =>
    rw [hu] at hx
    exact hx.elim

theorem isFinite_div_of_le {x y : Float} (hx : x.isFinite = true) (hy : y.isFinite = true) (hne : value y ≠ 0)
    (hle : |value x| ≤ |value y|) : (x / y).isFinite = true := by
  obtain ⟨t, n, f, hn, hv⟩ := exists_of_value_ne_zero hy hne
  change (Float.Model.pack
    (UnpackedFloat.div .binary64 x.toModel.unpack y.toModel.unpack)).unpack.isFinite = true
  rw [← isNumber_iff] at hx
  rw [value_eq, value_eq y, hv] at hle
  rw [hv]
  cases hu : x.toModel.unpack with
  | finite s m e hm =>
    obtain ⟨q, u, accuracy, z, hdiv, hunit, hz, hvalue⟩ := exists_div_eq s t hm hn (e := e) (f := f)
    obtain ⟨l, g, hshaped, r, hr, hclose, -⟩ := round_stands (s / t) hunit hz
    have hone : z * 2 ^ u ≤ 1 := by
      have hpos : (0 : ℚ) < n * 2 ^ f := by positivity
      rw [hvalue, div_le_one hpos]
      rwa [hu, valueOf, valueOf, abs_apply, abs_apply] at hle
    have hunits : (2 : ℚ) ^ unit q u ≤ 1 := by
      rcases (units_bounds hunit hz.between_mantissa).2 with hleast | hfull
      · rw [hleast]
        exact zpow_le_one_of_nonpos₀ one_le_two (by decide)
      · have hshift : z * 2 ^ (u - unit q u) * 2 ^ unit q u = z * 2 ^ u := by
          rw [mul_assoc, ← zpow_add₀ two_ne_zero, sub_add_cancel]
        have hpos : (0 : ℚ) < 2 ^ unit q u := zpow_pos two_pos _
        nlinarith
    rw [hdiv]
    apply hshaped.isFinite
    calc (l : ℚ) * 2 ^ g ≤ z * 2 ^ u + 2 ^ unit q u / 2 := by linarith [(abs_le.mp hclose).2]
      _ ≤ 2 ^ (1 : Int) := by rw [zpow_one]; linarith
      _ < 2 ^ (1024 : Int) := zpow_lt_zpow_right₀ one_lt_two (by decide)
  | zero s => exact IsNumber.isFinite_repack (u := .zero (s / t)) trivial
  | _ =>
    rw [hu] at hx
    exact hx.elim

theorem div_between {x y : Float} (hx : x.isFinite = true) (hy : y.isFinite = true) (hnonneg : 0 ≤ value x)
    (hle : value x ≤ value y) (hpos : 0 < value y) :
    (x / y).isFinite = true ∧ 0 ≤ value (x / y) ∧ value (x / y) ≤ 1 := by
  have hfinite := isFinite_div_of_le hx hy hpos.ne' (by rwa [abs_of_nonneg hnonneg, abs_of_pos hpos])
  have hnearest := div_nearest hx hy hpos.ne' hfinite
  refine ⟨hfinite, hnearest.ge fits_zero (div_nonneg hnonneg hpos.le), hnearest.le ?_ ?_⟩
  · exact_mod_cast fits_natCast (n := 1) (by decide)
  · rwa [div_le_one hpos]

/-! ## Counts -/

theorem mul_nearest {x y : Float} (h : (x * y).isFinite = true) :
    Nearest (value (x * y)) (value x * value y) := by
  have hproduct : (x * y).toModel.unpack =
      (Float.Model.pack (UnpackedFloat.mul .binary64 x.toModel.unpack y.toModel.unpack)).unpack := rfl
  obtain ⟨hx, hy, -⟩ := value_mul h
  have hnumber := (isNumber_iff (x * y)).mpr h
  rw [← isNumber_iff] at hx hy
  rw [hproduct] at hnumber
  rw [value_eq, value_eq x, value_eq y, hproduct]
  have hnothing (s : Sign) {v : ℚ} (hv : v = 0) : Nearest (valueOf (Float.Model.pack (.zero s)).unpack) v := by
    have hzero : IsNumber (.zero s) := trivial
    rw [hzero.repack, hv]
    exact rounds_nearest.same 0
  cases hu : x.toModel.unpack with
  | zero s =>
    cases hv : y.toModel.unpack with
    | zero t => exact hnothing _ (zero_mul _)
    | finite t n f hn => exact hnothing _ (zero_mul _)
    | _ => exact (hv ▸ hy).elim
  | finite s m e hm =>
    cases hv : y.toModel.unpack with
    | zero t => exact hnothing _ (mul_zero _)
    | finite t n f hn =>
      rw [hu] at hx
      rw [hv] at hy
      rw [hu, hv] at hnumber
      have hexact : Stands (.ofMantissaAndAccuracy (m * n) .exact) ((m * n : Nat) : ℚ) := rfl
      have hvalue : valueOf (.finite s m e hm) * valueOf (.finite t n f hn) =
          (s * t).apply 1 * ((m * n : Nat) * 2 ^ (e + f)) := by
        rw [← mul_assoc, ← apply_natCast, apply_mul, zpow_add₀ two_ne_zero, valueOf, valueOf]
        push_cast
        ring
      rw [hvalue]
      exact round_stands_nearest (s * t) (le_unit_mul hm hn hx hy) hexact hnumber
    | _ => exact (hv ▸ hy).elim
  | _ => exact (hu ▸ hx).elim

theorem value_one : (1 : Float).isFinite = true ∧ value 1 = 1 := by
  have hone : (1 : Float).isFinite = true := by decide +kernel
  have hreading : reading 1 = .finite false (2 ^ 52) (-52) := by decide +kernel
  refine ⟨hone, ?_⟩
  rw [value, hreading]
  norm_num [signed]

theorem ofNat_word {n : Nat} (h : n < 2 ^ 53) : Float.ofNat n = n.toUInt64.toFloat * 1 := by
  have hfew : n < 2 ^ 53 ∧ 0 ≤ 22 := ⟨h, by decide⟩
  have hone : Float.exactlyRepresentablePowersOfTen[0] = 1 := by decide +kernel
  change Float.ofScientific n false 0 = _
  rw [Float.ofScientific, dif_pos hfew, if_neg (by decide)]
  exact congrArg _ hone

theorem ofNat_rounded {n : Nat} (h : 2 ^ 53 ≤ n) : (Float.ofNat n).toModel =
    Float.Model.pack (UnpackedFloat.roundWithAccuracy .binary64 .positive (n * 2 ^ 53) (-53) .exact) := by
  have hmany : ¬ (n < 2 ^ 53 ∧ 0 ≤ 22) := by omega
  have hleast : (0 : Int) ≤ 2 ^ Format.binary64.exponentBits := by positivity
  change (Float.ofScientific n false 0).toModel = _
  rw [Float.ofScientific, dif_neg hmany, ← Nat.shiftLeft_eq, ← Nat.mul_one (n <<< 53)]
  change Float.Model.pack (UnpackedFloat.ofScientific .binary64 n 0) = _
  rw [UnpackedFloat.ofScientific, dif_neg (by omega), if_neg (by omega), if_neg (by omega), if_pos le_rfl]
  rfl

theorem ofNat_few {n : Nat} (hfew : n < 2 ^ 53) (h : (n : ℚ) < overflowBound) :
    (Float.ofNat n).isFinite = true ∧ Nearest (value (Float.ofNat n)) n := by
  have hword : n.toUInt64.toNat = n := by
    change n % 2 ^ 64 = n
    omega
  have hsize : |((n : Int) : ℚ) * 2 ^ (0 : Int)| < overflowBound := by
    rwa [zpow_zero, mul_one, Int.cast_natCast, Nat.abs_cast]
  have hmodel : n.toUInt64.toFloat.toModel =
      Float.Model.pack (UnpackedFloat.normalize .binary64 n 0 .positive) := by
    change Float.Model.pack (UnpackedFloat.normalize .binary64 n.toUInt64.toNat 0 .positive) = _
    rw [hword]
  have hfinite : n.toUInt64.toFloat.isFinite = true := by
    change n.toUInt64.toFloat.toModel.unpack.isFinite = true
    rw [hmodel]
    exact isFinite_normalize _ hsize
  have hnearest : Nearest (value n.toUInt64.toFloat) n := by
    have hnumber := (isNumber_iff _).mpr hfinite
    rw [hmodel] at hnumber
    have hrounded := rounds_nearest.normalize .positive (by decide) hnumber
    rwa [← hmodel, ← value_eq, zpow_zero, mul_one, Int.cast_natCast] at hrounded
  have hexact := hnearest.eq (fits_natCast hfew)
  have hproduct : (n.toUInt64.toFloat * 1).isFinite = true := by
    apply isFinite_mul hfinite value_one.1
    rwa [value_one.2, mul_one, hexact, Nat.abs_cast]
  rw [ofNat_word hfew]
  refine ⟨hproduct, ?_⟩
  have hrounded := mul_nearest hproduct
  rwa [value_one.2, mul_one, hexact] at hrounded

theorem ofNat_many {n : Nat} (hmany : 2 ^ 53 ≤ n) (h : (n : ℚ) < overflowBound) :
    (Float.ofNat n).isFinite = true ∧ Nearest (value (Float.ofNat n)) n := by
  have hsame : ((n * 2 ^ 53 : Nat) : ℚ) * 2 ^ (-53 : Int) = n := by
    rw [Nat.cast_mul, mul_assoc, Nat.cast_pow, Nat.cast_ofNat, ← zpow_natCast, ← zpow_add₀ two_ne_zero]
    exact mul_one _
  have hunit : (-53 : Int) ≤ unit (n * 2 ^ 53) (-53) := by
    rw [unit, log2_mul_two_pow (by omega)]
    omega
  have hfinite : (Float.ofNat n).isFinite = true := by
    change (Float.ofNat n).toModel.unpack.isFinite = true
    rw [ofNat_rounded hmany]
    exact isFinite_round_exact _ (by omega) hunit (by rwa [hsame])
  refine ⟨hfinite, ?_⟩
  have hnumber := (isNumber_iff _).mpr hfinite
  rw [ofNat_rounded hmany] at hnumber
  have hexact : Stands (.ofMantissaAndAccuracy (n * 2 ^ 53) .exact) ((n * 2 ^ 53 : Nat) : ℚ) := rfl
  have hrounded := round_stands_nearest .positive hunit hexact hnumber
  rw [← ofNat_rounded hmany, ← value_eq] at hrounded
  convert hrounded using 1
  rw [← hsame]
  simp [Sign.apply]

/-- A count becomes the nearest double, unless it overflows. -/
theorem ofNat_nearest {n : Nat} (h : (n : ℚ) < overflowBound) :
    (Float.ofNat n).isFinite = true ∧ Nearest (value (Float.ofNat n)) n :=
  (Nat.lt_or_ge n (2 ^ 53)).elim (ofNat_few · h) (ofNat_many · h)

theorem maxCount_lt_overflowBound : (maxCount : ℚ) < overflowBound := by
  calc (maxCount : ℚ) < 2 ^ (64 : Int) := by norm_num [maxCount]
    _ ≤ 2 ^ (970 : Int) := zpow_le_zpow_right₀ one_le_two (by decide)
    _ ≤ overflowBound := two_zpow_970_le_overflowBound

theorem share_between {part whole : Nat} (hle : part ≤ whole) (hpos : 0 < whole)
    (hwhole : (whole : ℚ) < overflowBound) :
    0 ≤ Float.ofNat part / Float.ofNat whole ∧ Float.ofNat part / Float.ofNat whole ≤ 1 := by
  have hpart : (part : ℚ) < overflowBound := lt_of_le_of_lt (by exact_mod_cast hle) hwhole
  obtain ⟨hx, hpart⟩ := ofNat_nearest hpart
  obtain ⟨hy, hwhole⟩ := ofNat_nearest hwhole
  have hnonneg : 0 ≤ value (Float.ofNat part) := hpart.ge fits_zero (Nat.cast_nonneg part)
  have hone : 1 ≤ value (Float.ofNat whole) := by
    have hfits := fits_natCast (n := 1) (by decide)
    exact_mod_cast hwhole.ge hfits (by exact_mod_cast hpos)
  have hmono : value (Float.ofNat part) ≤ value (Float.ofNat whole) := by
    rcases hle.lt_or_eq with hlt | rfl
    · exact hpart.mono hwhole (.of_isFinite hx) (.of_isFinite hy) (by exact_mod_cast hlt)
    · exact le_rfl
  obtain ⟨hfinite, hlow, hhigh⟩ := div_between hx hy hnonneg hmono (by linarith)
  rw [le_iff_value_le value_zero.1 hfinite, le_iff_value_le hfinite value_one.1, value_zero.2, value_one.2]
  exact ⟨hlow, hhigh⟩

end Engraver.Double
