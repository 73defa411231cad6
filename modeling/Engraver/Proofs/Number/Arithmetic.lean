import Engraver.Proofs.Number.Values

/-!
# Rounding errors

A finite sum or difference of doubles is off by at most one part in `2 ^ 53`, and a finite product besides
by half the least positive double. What is finite comes of finite numbers.
-/

namespace Engraver.Double

open Float.Model
open Float.Model.UnpackedFloat (Sign ExtendedMantissa)

/-! ## Shifting mantissas -/

/-- A mantissa with its two further bits stands for a rational: the first bit is a half, and the second
tells whether anything is left below it. -/
def Stands (em : ExtendedMantissa) (x : ℚ) : Prop :=
  match em.roundBit, em.stickyBit with
  | false, false => x = em.mantissa
  | false, true => em.mantissa < x ∧ x < em.mantissa + 1 / 2
  | true, false => x = em.mantissa + 1 / 2
  | true, true => em.mantissa + 1 / 2 < x ∧ x < em.mantissa + 1

theorem Stands.shiftRightOne {em : ExtendedMantissa} {x : ℚ} (h : Stands em x) :
    Stands em.shiftRightOne (x / 2) := by
  obtain ⟨m, half, rest⟩ := em
  obtain ⟨q, hq⟩ := Nat.even_or_odd' m
  rcases hq with rfl | rfl <;> cases half <;> cases rest <;>
    simp [Stands, ExtendedMantissa.shiftRightOne, Nat.mul_add_div] at h ⊢ <;>
    first | (constructor <;> linarith) | linarith

theorem Stands.shiftRight {em : ExtendedMantissa} {x : ℚ} (h : Stands em x) (k : Nat) :
    Stands (em >>> k) (x / 2 ^ k) := by
  induction k with
  | zero =>
    rw [pow_zero, div_one]
    exact h
  | succ k ih =>
    rw [pow_succ, ← div_div]
    exact ih.shiftRightOne

theorem Stands.rounded {em : ExtendedMantissa} {x : ℚ} (h : Stands em x) :
    |(em.roundedMantissa : ℚ) - x| ≤ 1 / 2 := by
  obtain ⟨m, half, rest⟩ := em
  have hparity : (m % 2 : Nat) = 0 ∨ (m % 2 : Nat) = 1 := by omega
  cases half <;> cases rest <;>
    simp only [Stands, ExtendedMantissa.roundedMantissa, ExtendedMantissa.accuracy,
      UnpackedFloat.Accuracy.roundToNearestEven] at h ⊢ <;>
    rw [abs_le]
  · constructor <;> linarith
  · constructor <;> linarith
  · rcases hparity with hp | hp <;> rw [hp] <;> push_cast <;> constructor <;> linarith
  · push_cast
    constructor <;> linarith

theorem Stands.between {em : ExtendedMantissa} {x : ℚ} (h : Stands em x) :
    (em.mantissa : ℚ) ≤ x ∧ x < em.mantissa + 1 := by
  obtain ⟨m, half, rest⟩ := em
  cases half <;> cases rest <;> simp only [Stands] at h ⊢ <;> constructor <;> linarith

theorem Stands.between_mantissa {m : Nat} {accuracy : UnpackedFloat.Accuracy} {x : ℚ}
    (h : Stands (.ofMantissaAndAccuracy m accuracy) x) : (m : ℚ) ≤ x ∧ x < m + 1 := by
  have hstart : (ExtendedMantissa.ofMantissaAndAccuracy m accuracy).mantissa = m := by
    rcases accuracy with _ | _ | _ | _ <;> rfl
  exact hstart ▸ h.between

/-! ## Rounding to fifty-three bits -/

/-- The exponent with which a mantissa has fifty-three bits, or the least exponent. -/
def unit (m : Nat) (e : Int) : Int :=
  max (m.log2 + e - 52) (-1074)

theorem targetExponent_eq (m : Nat) (e : Int) :
    Format.binary64.targetExponent (totalExponent m e) = unit m e := by
  change max ((m.log2 + 1 + e : Int) - 53) (-1074) = _
  unfold unit
  omega

theorem shift_eq {m : Nat} {e t : Int} (accuracy : UnpackedFloat.Accuracy) (ht : unit m e = t) (k : Nat)
    (hk : t - e = k) :
    UnpackedFloat.shiftToTargetExponent .binary64 m e accuracy =
      (ExtendedMantissa.ofMantissaAndAccuracy m accuracy >>> k, t) := by
  unfold UnpackedFloat.shiftToTargetExponent UnpackedFloat.shiftToExponent
  dsimp only
  rw [targetExponent_eq, ht, hk, Int.toNat_natCast]
  exact Prod.ext rfl (by dsimp only; omega)

theorem shift_none {m : Nat} {e : Int} (h : unit m e ≤ e) :
    UnpackedFloat.shiftToTargetExponent .binary64 m e .exact = (⟨m, false, false⟩, e) := by
  unfold UnpackedFloat.shiftToTargetExponent UnpackedFloat.shiftToExponent
  dsimp only
  rw [targetExponent_eq, Int.toNat_of_nonpos (by omega)]
  exact Prod.ext rfl (by simp)

/-- A number of at most fifty-three bits, which are all used unless the exponent is the least. The exponent
may be too large for a double. -/
structure Shaped (s : Sign) (u : UnpackedFloat) (n : Nat) (f : Int) : Prop where
  shape : u = if h : n = 0 then .zero s else .finite s n f (Nat.pos_of_ne_zero h)
  least : -1074 ≤ f
  fits : n < 2 * fieldBit
  full : f = -1074 ∨ fieldBit ≤ n

theorem log2_bounds {m : Nat} (hm : 0 < m) :
    (2 : ℚ) ^ (m.log2 : Int) ≤ m ∧ (m : ℚ) < 2 ^ (m.log2 + 1 : Int) := by
  constructor
  · rw [zpow_natCast]
    exact_mod_cast Nat.log2_self_le hm.ne'
  · have h : m < 2 ^ (m.log2 + 1) := Nat.lt_log2_self
    exact_mod_cast h

theorem units_between {m : Nat} {e : Int} {x : ℚ} (hm : 0 < m) (hx : (m : ℚ) ≤ x ∧ x < m + 1) :
    x * 2 ^ (e - unit m e) < 2 ^ 53 ∧ (unit m e = -1074 ∨ (2 : ℚ) ^ 52 ≤ x * 2 ^ (e - unit m e)) := by
  have hlow : (2 : ℚ) ^ (m.log2 : Int) ≤ x := (log2_bounds hm).1.trans hx.1
  have hhigh : x < 2 ^ (m.log2 + 1 : Int) := by
    have hnext : m + 1 ≤ 2 ^ (m.log2 + 1) := Nat.lt_log2_self
    exact hx.2.trans_le (by exact_mod_cast hnext)
  have hshift {y z : Int} (h : y + (e - unit m e) = z) : (2 : ℚ) ^ y * 2 ^ (e - unit m e) = 2 ^ z := by
    rw [← zpow_add₀ two_ne_zero, h]
  constructor
  · calc x * 2 ^ (e - unit m e) < 2 ^ (m.log2 + 1 : Int) * 2 ^ (e - unit m e) := by gcongr
      _ = 2 ^ (m.log2 + 1 + (e - unit m e) : Int) := hshift rfl
      _ ≤ 2 ^ (53 : Int) := zpow_le_zpow_right₀ one_le_two (by unfold unit; omega)
      _ = 2 ^ 53 := by norm_cast
  · rcases eq_or_ne (unit m e) (-1074) with h | h
    · exact .inl h
    · right
      calc (2 : ℚ) ^ 52 = 2 ^ (52 : Int) := by norm_cast
        _ = 2 ^ (m.log2 : Int) * 2 ^ (e - unit m e) := (hshift (by unfold unit at h ⊢; omega)).symm
        _ ≤ x * 2 ^ (e - unit m e) := by gcongr

theorem units_bounds {m : Nat} {e : Int} {x : ℚ} (h : e ≤ unit m e) (hx : (m : ℚ) ≤ x ∧ x < m + 1) :
    x * 2 ^ (e - unit m e) < 2 ^ 53 ∧ (unit m e = -1074 ∨ (2 : ℚ) ^ 52 ≤ x * 2 ^ (e - unit m e)) := by
  rcases Nat.eq_zero_or_pos m with rfl | hm
  · have hzero : (Nat.log2 0 : Int) = 0 := by decide
    refine ⟨?_, .inl (by unfold unit at h ⊢; omega)⟩
    rw [Nat.cast_zero, zero_add] at hx
    have hpow : (2 : ℚ) ^ (e - unit 0 e) ≤ 1 := zpow_le_one_of_nonpos₀ one_le_two (by omega)
    calc x * 2 ^ (e - unit 0 e) ≤ 1 * 1 := mul_le_mul hx.2.le hpow (by positivity) zero_le_one
      _ < 2 ^ 53 := by norm_num
  · exact units_between hm hx

/-- Rounding ends at a whole number of units, which are the nearest to what the mantissa stands for. It keeps the
mantissa if that has to give up no bit and nothing is left below it. -/
theorem round_stands (s : Sign) {m : Nat} {e : Int} {accuracy : UnpackedFloat.Accuracy} {y : ℚ}
    (h : e ≤ unit m e) (hy : Stands (.ofMantissaAndAccuracy m accuracy) y) :
    ∃ n f, Shaped s (UnpackedFloat.roundWithAccuracy .binary64 s m e accuracy) n f ∧
      ∃ r : Nat, (n : ℚ) * 2 ^ f = r * 2 ^ unit m e ∧ |(r : ℚ) * 2 ^ unit m e - y * 2 ^ e| ≤ 2 ^ unit m e / 2 ∧
        (accuracy = .exact → unit m e = e → r = m) := by
  obtain ⟨hbelow, habove⟩ := units_bounds h hy.between_mantissa
  have hleast : -1074 ≤ unit m e := le_max_right _ _
  obtain ⟨t, ht⟩ : ∃ t, unit m e = t := ⟨_, rfl⟩
  obtain ⟨k, hk⟩ := Int.eq_ofNat_of_zero_le (show 0 ≤ unit m e - e by omega)
  rw [ht] at hk hleast h hbelow habove ⊢
  have hpow : (0 : ℚ) < 2 ^ t := by positivity
  -- The mantissa stands for `x` units, and is rounded to `r`.
  obtain ⟨x, hx⟩ : ∃ x : ℚ, y * 2 ^ (e - t) = x := ⟨_, rfl⟩
  rw [hx] at hbelow habove
  have hexact : y * 2 ^ e = x * 2 ^ t := by
    rw [← hx, mul_assoc, ← zpow_add₀ two_ne_zero, sub_add_cancel]
  have hstands : Stands (ExtendedMantissa.ofMantissaAndAccuracy m accuracy >>> k) x := by
    have hdiv : x = y / 2 ^ k := by
      rw [← hx, show e - t = -(k : Int) by omega, zpow_neg, zpow_natCast, div_eq_mul_inv]
    rw [hdiv]
    exact hy.shiftRight k
  obtain ⟨r, hr⟩ : ∃ r, (ExtendedMantissa.ofMantissaAndAccuracy m accuracy >>> k).roundedMantissa = r :=
    ⟨_, rfl⟩
  have hclose := hstands.rounded
  rw [hr] at hclose
  have herror : |(r : ℚ) * 2 ^ t - y * 2 ^ e| ≤ 2 ^ t / 2 := by
    rw [hexact, ← sub_mul, abs_mul, abs_of_pos hpow]
    linarith [mul_le_mul_of_nonneg_right hclose hpow.le]
  have hnone : accuracy = .exact → t = e → r = m := by
    rintro rfl rfl
    obtain rfl : k = 0 := by omega
    exact hr.symm
  obtain ⟨hclose₁, hclose₂⟩ := abs_le.mp hclose
  have hfits : r ≤ 2 ^ 53 := by
    have hlt : (r : ℚ) < (2 ^ 53 + 1 : Nat) := by push_cast; linarith
    exact Nat.le_of_lt_succ (by exact_mod_cast hlt)
  have hfull : t = -1074 ∨ 2 ^ 52 ≤ r := by
    refine habove.imp_right fun hge => ?_
    have hlt : ((2 ^ 52 - 1 : Nat) : ℚ) < r := by push_cast; linarith
    have := Nat.cast_lt.mp hlt
    omega
  unfold UnpackedFloat.roundWithAccuracy
  rw [shift_eq accuracy ht k hk]
  dsimp only
  rw [hr]
  rcases hfits.lt_or_eq with hlt | rfl
  · -- The rounded mantissa still fits.
    have hunit : unit r t ≤ t := by
      have hlog : r.log2 < 53 := by
        rcases Nat.eq_zero_or_pos r with rfl | hpos
        · decide
        · exact (Nat.log2_lt hpos.ne').mpr hlt
      unfold unit
      omega
    rw [shift_none hunit]
    exact ⟨r, t, ⟨rfl, hleast, hlt, hfull⟩, r, rfl, herror, hnone⟩
  · -- It has been rounded up to a power of two, with one bit too many.
    have hunit : unit (2 ^ 53) t = t + 1 := by
      unfold unit
      rw [Nat.log2_two_pow]
      omega
    rw [shift_eq .exact hunit 1 (by omega)]
    have hhalf : ((2 ^ 52 : Nat) : ℚ) * 2 ^ (t + 1) = (2 ^ 53 : Nat) * 2 ^ t := by
      rw [zpow_add_one₀ two_ne_zero]
      push_cast
      ring
    exact ⟨2 ^ 52, t + 1, ⟨rfl, by omega, by decide, .inr le_rfl⟩, 2 ^ 53, hhalf, herror, hnone⟩

theorem round_shaped (s : Sign) {m : Nat} {e : Int} (h : e ≤ unit m e) :
    ∃ n f, Shaped s (UnpackedFloat.roundWithAccuracy .binary64 s m e .exact) n f ∧
      |(n : ℚ) * 2 ^ f - m * 2 ^ e| ≤ 2 ^ unit m e / 2 ∧
      (unit m e = e → (n : ℚ) * 2 ^ f = m * 2 ^ e) ∧ ∃ r : Nat, (n : ℚ) * 2 ^ f = r * 2 ^ unit m e := by
  have hexact : Stands (.ofMantissaAndAccuracy m .exact) (m : ℚ) := rfl
  obtain ⟨n, f, hshaped, r, hr, hclose, hnone⟩ := round_stands s h hexact
  refine ⟨n, f, hshaped, hr ▸ hclose, fun hunit => ?_, r, hr⟩
  rw [hr, hnone rfl hunit, hunit]

/-! ## Packing what is rounded -/

theorem unpack_packedInfinity (s : Sign) :
    UnpackedFloat.unpack .binary64 (UnpackedFloat.packedInfinity .binary64 s) = .infinity s := by
  unfold UnpackedFloat.packedInfinity UnpackedFloat.unpack
  simp only [UnpackedFloat.unpackMantissa_packComponents, UnpackedFloat.unpackExponent_packComponents,
    UnpackedFloat.unpackSign_packComponents, Sign.ofBitVec_toBitVec]
  rw [if_pos trivial, if_pos (by decide)]

theorem Shaped.isNumber {s : Sign} {u : UnpackedFloat} {n : Nat} {f : Int} (h : Shaped s u n f)
    (hnumber : IsNumber (Float.Model.pack u).unpack) : IsNumber u := by
  obtain ⟨rfl, hleast, hfits, hfull⟩ := h
  split
  · trivial
  · rename_i hn
    rcases le_or_gt f 971 with hmost | hmost
    · exact ⟨hleast, hmost, hfits, hfull⟩
    · have hoverflow : UnpackedFloat.pack .binary64 (.finite s n f (Nat.pos_of_ne_zero hn)) =
          UnpackedFloat.packedInfinity .binary64 s := by
        unfold UnpackedFloat.pack
        dsimp only
        rw [if_pos]
        change 2048 ≤ (f + 1023 + 52).toNat + 1
        omega
      rw [dif_neg hn] at hnumber
      change IsNumber (UnpackedFloat.unpack .binary64 (UnpackedFloat.pack .binary64 _)) at hnumber
      rw [hoverflow, unpack_packedInfinity] at hnumber
      exact hnumber.elim

theorem Shaped.repack {s : Sign} {u : UnpackedFloat} {n : Nat} {f : Int} (h : Shaped s u n f)
    (hnumber : IsNumber (Float.Model.pack u).unpack) :
    valueOf (Float.Model.pack u).unpack = s.apply n * 2 ^ f := by
  rw [(h.isNumber hnumber).repack, h.shape]
  split
  · rename_i hn
    cases s <;> simp [valueOf, Sign.apply, hn]
  · rfl

theorem half_lowest_bit_le {m : Nat} (hm : 0 < m) (e : Int) :
    (2 : ℚ) ^ (m.log2 + e - 52 : Int) / 2 ≤ m * 2 ^ e / 2 ^ 53 := by
  have hlow := (log2_bounds hm).1
  calc (2 : ℚ) ^ (m.log2 + e - 52 : Int) / 2 = 2 ^ (m.log2 : Int) * 2 ^ e / 2 ^ 53 := by
        rw [zpow_sub₀ two_ne_zero, zpow_add₀ two_ne_zero, show (52 : Int) = (52 : Nat) from rfl,
          zpow_natCast]
        ring
    _ ≤ m * 2 ^ e / 2 ^ 53 := by gcongr

theorem half_unit_le {m : Nat} (hm : 0 < m) (e : Int) :
    (2 : ℚ) ^ unit m e / 2 ≤ m * 2 ^ e / 2 ^ 53 + 2 ^ (-1075 : Int) := by
  have hbit := half_lowest_bit_le hm e
  have hleast : (2 : ℚ) ^ (-1074 : Int) / 2 = 2 ^ (-1075 : Int) := (zpow_sub_one₀ two_ne_zero _).symm
  have hpos : (0 : ℚ) ≤ m * 2 ^ e / 2 ^ 53 ∧ (0 : ℚ) < 2 ^ (-1075 : Int) := by constructor <;> positivity
  unfold unit
  rcases max_cases (m.log2 + e - 52 : Int) (-1074) with ⟨h, -⟩ | ⟨h, -⟩ <;> rw [h] <;> linarith

theorem abs_apply (s : Sign) (m : Nat) (e : Int) : |(s.apply m : ℚ) * 2 ^ e| = m * 2 ^ e := by
  rw [abs_mul, abs_of_pos (by positivity : (0 : ℚ) < 2 ^ e)]
  cases s <;> simp [Sign.apply]

theorem abs_apply_sub (s : Sign) (m n : Nat) (e f : Int) :
    |(s.apply n : ℚ) * 2 ^ f - s.apply m * 2 ^ e| = |(n : ℚ) * 2 ^ f - m * 2 ^ e| := by
  cases s
  · rw [← abs_neg]
    congr 1
    simp [Sign.apply]
    ring
  · simp [Sign.apply]

theorem round_close (s : Sign) {m : Nat} {e : Int} (hm : 0 < m) (h : e ≤ unit m e)
    (hnumber : IsNumber
      (Float.Model.pack (UnpackedFloat.roundWithAccuracy .binary64 s m e .exact)).unpack) :
    let w := valueOf (Float.Model.pack (UnpackedFloat.roundWithAccuracy .binary64 s m e .exact)).unpack
    let v : ℚ := s.apply m * 2 ^ e
    |w - v| ≤ |v| / 2 ^ 53 + 2 ^ (-1075 : Int) ∧ (-1074 ≤ e → |w - v| ≤ |v| / 2 ^ 53) := by
  obtain ⟨n, f, hshaped, hclose, hexact, -⟩ := round_shaped s h
  intro w v
  have hw : w = s.apply n * 2 ^ f := hshaped.repack hnumber
  rw [hw, abs_apply_sub, abs_apply]
  refine ⟨hclose.trans (half_unit_le hm e), fun hleast => ?_⟩
  rcases le_total (m.log2 + e - 52 : Int) (-1074) with hlog | hlog
  · rw [hexact (by unfold unit at h ⊢; omega), sub_self, abs_zero]
    positivity
  · rw [show unit m e = m.log2 + e - 52 from max_eq_left hlog] at hclose
    exact hclose.trans (half_lowest_bit_le hm e)

/-! ## Sums -/

theorem log2_mul_two_pow {m : Nat} (hm : 0 < m) (k : Nat) : (m * 2 ^ k).log2 = m.log2 + k := by
  rw [Nat.log2_eq_iff (by positivity), pow_add, show m.log2 + k + 1 = m.log2 + 1 + k by omega, pow_add]
  have hlt : m < 2 ^ (m.log2 + 1) := Nat.lt_log2_self
  exact ⟨Nat.mul_le_mul_right _ (Nat.log2_self_le hm.ne'), by gcongr⟩

theorem exists_decreaseExponent (m : Nat) (e t : Int) : ∃ k : Nat, k = (e - t).toNat ∧
    UnpackedFloat.decreaseExponent m e t = (m * 2 ^ k, e - k) ∧
    ∀ s : Sign, (s.apply (m * 2 ^ k : Nat) : ℚ) * 2 ^ (e - k) = s.apply m * 2 ^ e := by
  refine ⟨_, rfl, ?_, fun s => ?_⟩
  · unfold UnpackedFloat.decreaseExponent
    dsimp only
    rw [Nat.shiftLeft_eq]
  · rw [zpow_sub₀ two_ne_zero, zpow_natCast]
    cases s <;> simp only [Sign.apply] <;> push_cast <;> field_simp

theorem exists_round_eq (s : Sign) {m : Nat} {e : Int} (hm : 0 < m) :
    ∃ (n : Nat) (f : Int), 0 < n ∧ f ≤ unit n f ∧ (-1074 ≤ e → -1074 ≤ f) ∧
      UnpackedFloat.round .binary64 s m e = UnpackedFloat.roundWithAccuracy .binary64 s n f .exact ∧
      ∀ t : Sign, (t.apply n : ℚ) * 2 ^ f = t.apply m * 2 ^ e := by
  obtain ⟨k, hk, hdecrease, hvalue⟩ := exists_decreaseExponent m e (unit m e)
  have hunit : unit (m * 2 ^ k) (e - k) = unit m e := by
    unfold unit
    rw [log2_mul_two_pow hm]
    congr 1
    push_cast
    ring
  have hbound : -1074 ≤ unit m e := le_max_right _ _
  refine ⟨m * 2 ^ k, e - k, by positivity, by rw [hunit]; omega, by omega, ?_, hvalue⟩
  unfold UnpackedFloat.round
  dsimp only
  rw [targetExponent_eq, hdecrease]

theorem round_number_close (s : Sign) {m : Nat} {e : Int} (hm : 0 < m) (hleast : -1074 ≤ e)
    (hnumber : IsNumber (Float.Model.pack (UnpackedFloat.round .binary64 s m e)).unpack) :
    |valueOf (Float.Model.pack (UnpackedFloat.round .binary64 s m e)).unpack - s.apply m * 2 ^ e| ≤
      |(s.apply m : ℚ) * 2 ^ e| / 2 ^ 53 := by
  obtain ⟨n, f, hn, hunit, hleast', hround, hvalue⟩ := exists_round_eq s (e := e) hm
  rw [hround] at hnumber ⊢
  rw [← hvalue s]
  exact (round_close s hn hunit hnumber).2 (hleast' hleast)

/-- How a rounded number may differ from the one it was rounded from: not at all, or as `round` has it. -/
structure Rounds (R : ℚ → ℚ → Prop) : Prop where
  same : ∀ v, R v v
  round : ∀ (s : Sign) {m : Nat} {e : Int}, 0 < m → -1074 ≤ e →
    IsNumber (Float.Model.pack (UnpackedFloat.round .binary64 s m e)).unpack →
    R (valueOf (Float.Model.pack (UnpackedFloat.round .binary64 s m e)).unpack) (s.apply m * 2 ^ e)

theorem rounds_close : Rounds fun w v => |w - v| ≤ |v| / 2 ^ 53 where
  same v := by
    rw [sub_self, abs_zero]
    positivity
  round s := round_number_close s

theorem Rounds.normalize {R : ℚ → ℚ → Prop} (hR : Rounds R) {m : Int} {e : Int} (t : Sign) (hleast : -1074 ≤ e)
    (hnumber : IsNumber (Float.Model.pack (UnpackedFloat.normalize .binary64 m e t)).unpack) :
    R (valueOf (Float.Model.pack (UnpackedFloat.normalize .binary64 m e t)).unpack) (m * 2 ^ e) := by
  unfold UnpackedFloat.normalize at hnumber ⊢
  split at hnumber <;> rename_i h
  · rw [Int.compare_eq_lt] at h
    obtain ⟨n, rfl⟩ : ∃ n : Nat, m = -n := ⟨m.natAbs, by omega⟩
    simp only [neg_neg, Int.toNat_natCast] at hnumber ⊢
    exact hR.round .negative (by omega) hleast hnumber
  · rw [Int.compare_eq_eq] at h
    have hzero : IsNumber (.zero t) := trivial
    rw [hzero.repack, h, Int.cast_zero, zero_mul]
    exact hR.same 0
  · rw [Int.compare_eq_gt] at h
    obtain ⟨n, rfl⟩ := Int.eq_ofNat_of_zero_le h.le
    simp only [Int.toNat_natCast] at hnumber ⊢
    exact hR.round .positive (by omega) hleast hnumber

theorem exists_add_eq (s t : Sign) {m n : Nat} {e f : Int} (hm : 0 < m) (hn : 0 < n) : ∃ z : Int,
    UnpackedFloat.add .binary64 (.finite s m e hm) (.finite t n f hn) =
      UnpackedFloat.normalize .binary64 z (min e f) .positive ∧
    valueOf (.finite s m e hm) + valueOf (.finite t n f hn) = z * 2 ^ min e f := by
  obtain ⟨k, hk', hk, hu⟩ := exists_decreaseExponent m e (min e f)
  obtain ⟨l, hl', hl, hv⟩ := exists_decreaseExponent n f (min e f)
  have hcommon : e - k = min e f ∧ f - l = min e f := by omega
  refine ⟨s.apply (m * 2 ^ k : Nat) + t.apply (n * 2 ^ l : Nat), ?_, ?_⟩
  · simp only [UnpackedFloat.add]
    rw [hk, hl]
  · have hu := hu s
    have hv := hv t
    rw [hcommon.1] at hu
    rw [hcommon.2] at hv
    rw [Int.cast_add, add_mul, hu, hv]
    rfl

theorem Rounds.add_numbers {R : ℚ → ℚ → Prop} (hR : Rounds R) {u v : UnpackedFloat} (hu : IsNumber u)
    (hv : IsNumber v) (hnumber : IsNumber (Float.Model.pack (UnpackedFloat.add .binary64 u v)).unpack) :
    R (valueOf (Float.Model.pack (UnpackedFloat.add .binary64 u v)).unpack) (valueOf u + valueOf v) := by
  have hsame {w : UnpackedFloat} (hw : IsNumber w) {x : ℚ} (hx : valueOf w = x) :
      R (valueOf (Float.Model.pack w).unpack) x := by
    rw [hw.repack, hx]
    exact hR.same x
  cases u with
  | zero s =>
    cases v with
    | zero t =>
      simp only [UnpackedFloat.add]
      split
      · exact hsame (w := .zero s) trivial (add_zero 0).symm
      · exact hsame (w := .zero .positive) trivial (add_zero 0).symm
    | finite t n f hn => exact hsame hv (zero_add _).symm
    | _ => exact hv.elim
  | finite s m e hm =>
    cases v with
    | zero t => exact hsame hu (add_zero _).symm
    | finite t n f hn =>
      obtain ⟨z, hadd, hsum⟩ := exists_add_eq s t hm hn (e := e) (f := f)
      rw [hadd] at hnumber ⊢
      rw [hsum]
      exact hR.normalize _ (le_min hu.least hv.least) hnumber
    | _ => exact hv.elim
  | _ => exact hu.elim

theorem isFinite_of_repack {u : UnpackedFloat} (h : IsNumber (Float.Model.pack u).unpack) :
    u.isFinite = true := by
  change IsNumber (UnpackedFloat.unpack .binary64 (UnpackedFloat.pack .binary64 u)) at h
  cases u with
  | notANumber =>
    rw [UnpackedFloat.pack, UnpackedFloat.unpack_packedNaN] at h
    exact h.elim
  | infinity s =>
    rw [UnpackedFloat.pack, unpack_packedInfinity] at h
    exact h.elim
  | _ => rfl

theorem isFinite_of_add {u v : UnpackedFloat} (h : (UnpackedFloat.add .binary64 u v).isFinite = true) :
    u.isFinite = true ∧ v.isFinite = true := by
  cases u <;> cases v <;> simp only [UnpackedFloat.add] at h <;>
    first | exact ⟨rfl, rfl⟩ | cases h | (split at h <;> cases h)

theorem operands_of_add {x y : Float} (h : (x + y).isFinite = true) :
    x.isFinite = true ∧ y.isFinite = true := by
  have hnumber : IsNumber (Float.Model.pack
      (UnpackedFloat.add .binary64 x.toModel.unpack y.toModel.unpack)).unpack := (isNumber_iff (x + y)).mpr h
  exact isFinite_of_add (isFinite_of_repack hnumber)

theorem Rounds.add {R : ℚ → ℚ → Prop} (hR : Rounds R) {x y : Float} (h : (x + y).isFinite = true) :
    R (value (x + y)) (value x + value y) := by
  obtain ⟨hx, hy⟩ := operands_of_add h
  rw [value_eq, value_eq x, value_eq y]
  exact hR.add_numbers ((isNumber_iff x).mpr hx) ((isNumber_iff y).mpr hy) ((isNumber_iff (x + y)).mpr h)

/-- A sum is off by one part in `2 ^ 53` at most. -/
theorem value_add {x y : Float} (h : (x + y).isFinite = true) : x.isFinite = true ∧ y.isFinite = true ∧
    |value (x + y) - (value x + value y)| ≤ |value x + value y| / 2 ^ 53 :=
  ⟨(operands_of_add h).1, (operands_of_add h).2, rounds_close.add h⟩

theorem unpacked_sub (u v : UnpackedFloat) :
    UnpackedFloat.sub .binary64 u v = UnpackedFloat.add .binary64 u v.neg := by
  cases u <;> cases v <;> first
    | rfl
    | simp only [UnpackedFloat.sub, UnpackedFloat.add, UnpackedFloat.neg, apply_neg, Int.sub_eq_add_neg]

theorem sub_eq_add {x y : Float} (hy : y.isFinite = true) : x - y = x + -y := by
  rw [← isNumber_iff] at hy
  change (⟨Float.Model.pack (UnpackedFloat.sub .binary64 x.toModel.unpack y.toModel.unpack)⟩ : Float) =
    ⟨Float.Model.pack (UnpackedFloat.add .binary64 x.toModel.unpack
      (Float.Model.pack y.toModel.unpack.neg).unpack)⟩
  rw [unpacked_sub, hy.neg.repack]

theorem operands_of_sub {x y : Float} (h : (x - y).isFinite = true) :
    x.isFinite = true ∧ y.isFinite = true := by
  have hy : y.isFinite = true := by
    have hnumber : IsNumber (Float.Model.pack
        (UnpackedFloat.sub .binary64 x.toModel.unpack y.toModel.unpack)).unpack :=
      (isNumber_iff (x - y)).mpr h
    rw [unpacked_sub] at hnumber
    have hneg := (isFinite_of_add (isFinite_of_repack hnumber)).2
    change y.toModel.unpack.isFinite = true
    cases hv : y.toModel.unpack <;> rw [hv] at hneg <;> exact hneg
  rw [sub_eq_add hy] at h
  exact ⟨(operands_of_add h).1, hy⟩

theorem Rounds.sub {R : ℚ → ℚ → Prop} (hR : Rounds R) {x y : Float} (h : (x - y).isFinite = true) :
    R (value (x - y)) (value x - value y) := by
  obtain ⟨-, hy⟩ := operands_of_sub h
  rw [sub_eq_add hy] at h ⊢
  rw [sub_eq_add_neg, ← value_neg hy]
  exact hR.add h

theorem value_sub {x y : Float} (h : (x - y).isFinite = true) : x.isFinite = true ∧ y.isFinite = true ∧
    |value (x - y) - (value x - value y)| ≤ |value x - value y| / 2 ^ 53 :=
  ⟨(operands_of_sub h).1, (operands_of_sub h).2, rounds_close.sub h⟩

/-! ## Products -/

theorem isFinite_of_mul {u v : UnpackedFloat} (h : (UnpackedFloat.mul .binary64 u v).isFinite = true) :
    u.isFinite = true ∧ v.isFinite = true := by
  cases u <;> cases v <;> first | exact ⟨rfl, rfl⟩ | cases h

theorem le_unit_mul {m n : Nat} {e f : Int} (hm : 0 < m) (hn : 0 < n) (hu : Canonical m e)
    (hv : Canonical n f) : e + f ≤ unit (m * n) (e + f) := by
  have hbits (h : fieldBit ≤ m * n) : e + f ≤ unit (m * n) (e + f) := by
    have hlog : 52 ≤ (m * n).log2 := (Nat.le_log2 (Nat.mul_pos hm hn).ne').mpr h
    unfold unit
    omega
  rcases hu.full with hleast | hfull
  · rcases hv.full with hleast' | hfull
    · unfold unit
      omega
    · exact hbits (hfull.trans (Nat.le_mul_of_pos_left n hm))
  · exact hbits (hfull.trans (Nat.le_mul_of_pos_right m hn))

theorem apply_mul (s t : Sign) (m n : Nat) : (s * t).apply (m * n : Nat) = s.apply m * t.apply n := by
  rw [Int.natCast_mul]
  cases s <;> cases t
  · exact (Int.neg_mul_neg _ _).symm
  · exact (Int.neg_mul _ _).symm
  · exact (Int.mul_neg _ _).symm
  · rfl

theorem mul_numbers_close {u v : UnpackedFloat} (hu : IsNumber u) (hv : IsNumber v)
    (hnumber : IsNumber (Float.Model.pack (UnpackedFloat.mul .binary64 u v)).unpack) :
    |valueOf (Float.Model.pack (UnpackedFloat.mul .binary64 u v)).unpack - valueOf u * valueOf v| ≤
      |valueOf u * valueOf v| / 2 ^ 53 + 2 ^ (-1075 : Int) := by
  have hnothing (s : Sign) {x : ℚ} (hx : x = 0) :
      |valueOf (Float.Model.pack (.zero s)).unpack - x| ≤ |x| / 2 ^ 53 + 2 ^ (-1075 : Int) := by
    have hzero : IsNumber (.zero s) := trivial
    have hpos : (0 : ℚ) < 2 ^ (-1075 : Int) := by positivity
    rw [hzero.repack, hx, show valueOf (.zero s) = 0 from rfl, sub_self, abs_zero, zero_div, zero_add]
    exact hpos.le
  cases u with
  | zero s =>
    cases v with
    | zero t => exact hnothing _ (zero_mul _)
    | finite t n f hn => exact hnothing _ (zero_mul _)
    | _ => exact hv.elim
  | finite s m e hm =>
    cases v with
    | zero t => exact hnothing _ (mul_zero _)
    | finite t n f hn =>
      have hproduct : valueOf (.finite s m e hm) * valueOf (.finite t n f hn) =
          (s * t).apply (m * n : Nat) * 2 ^ (e + f) := by
        rw [apply_mul, zpow_add₀ two_ne_zero]
        simp only [valueOf]
        push_cast
        ring
      rw [hproduct]
      exact (round_close (s * t) (Nat.mul_pos hm hn) (le_unit_mul hm hn hu hv) hnumber).1
    | _ => exact hv.elim
  | _ => exact hu.elim

/-- A product is off by one part in `2 ^ 53` and half the least positive double at most. -/
theorem value_mul {x y : Float} (h : (x * y).isFinite = true) : x.isFinite = true ∧ y.isFinite = true ∧
    |value (x * y) - value x * value y| ≤ |value x * value y| / 2 ^ 53 + 2 ^ (-1075 : Int) := by
  have hnumber : IsNumber (Float.Model.pack
      (UnpackedFloat.mul .binary64 x.toModel.unpack y.toModel.unpack)).unpack := (isNumber_iff (x * y)).mpr h
  obtain ⟨hx, hy⟩ := isFinite_of_mul (isFinite_of_repack hnumber)
  rw [value_eq, value_eq x, value_eq y]
  exact ⟨hx, hy, mul_numbers_close ((isNumber_iff x).mpr hx) ((isNumber_iff y).mpr hy) hnumber⟩

theorem value_mul_of_close {x y : Float} {u : ℚ} (h : (x * y).isFinite = true)
    (hx : |value x - u| ≤ |u| / 2 ^ 53) :
    |value (x * y) - u * value y| ≤ 3 * |u * value y| / 2 ^ 53 + 2 ^ (-1075 : Int) := by
  obtain ⟨-, -, hclose⟩ := value_mul h
  have hfactor : |value x * value y - u * value y| ≤ |u * value y| / 2 ^ 53 := by
    rw [← sub_mul, abs_mul, abs_mul, mul_div_right_comm]
    exact mul_le_mul_of_nonneg_right hx (abs_nonneg _)
  have hproduct : |value x * value y| ≤ |u * value y| + |value x * value y - u * value y| := by
    calc |value x * value y| = |u * value y + (value x * value y - u * value y)| := by congr 1; ring
      _ ≤ _ := abs_add_le _ _
  have hpos := abs_nonneg (u * value y)
  calc |value (x * y) - u * value y|
      = |value (x * y) - value x * value y + (value x * value y - u * value y)| := by congr 1; ring
    _ ≤ |value (x * y) - value x * value y| + |value x * value y - u * value y| := abs_add_le _ _
    _ ≤ 3 * |u * value y| / 2 ^ 53 + 2 ^ (-1075 : Int) := by linarith

theorem value_add_within {x y : Float} {M : ℚ} (h : (x + y).isFinite = true) (hM : |value (x + y)| ≤ M) :
    |value (x + y) - (value x + value y)| ≤ 3 * M / 2 ^ 54 := by
  obtain ⟨-, -, hclose⟩ := value_add h
  have hsum : |value x + value y| ≤ |value (x + y)| + |value (x + y) - (value x + value y)| := by
    rw [abs_sub_comm]
    calc |value x + value y| = |value (x + y) + (value x + value y - value (x + y))| := by congr 1; ring
      _ ≤ _ := abs_add_le _ _
  have hpos := abs_nonneg (value (x + y) - (value x + value y))
  linarith

/-! ## Zeros -/

theorem beq_zero_iff (x : Float) : (x == 0) = true ↔ ∃ s, x.toModel.unpack = .zero s := by
  change x.toModel.unpack.beq (0 : Float).toModel.unpack = true ↔ _
  rw [unpack_zero]
  cases x.toModel.unpack with
  | zero s => exact iff_of_true rfl ⟨s, rfl⟩
  | infinity s => cases s <;> exact iff_of_false Bool.false_ne_true (by simp)
  | finite s m e hm => cases s <;> exact iff_of_false Bool.false_ne_true (by simp)
  | notANumber => exact iff_of_false Bool.false_ne_true (by simp)

theorem unpack_of_zero {x : Float} {s : Sign} (h : x.toModel = Float.Model.pack (.zero s)) :
    x.toModel.unpack = .zero s := by
  rw [h]
  exact IsNumber.repack (u := .zero s) trivial

theorem zero_mul_beq {x z : Float} (hx : x.isFinite = true) (hz : (z == 0) = true) :
    (z * x == 0) = true ∧ (x * z == 0) = true := by
  rw [beq_zero_iff] at hz ⊢
  rw [beq_zero_iff]
  obtain ⟨s, hz⟩ := hz
  have hleft : (z * x).toModel =
      Float.Model.pack (UnpackedFloat.mul .binary64 z.toModel.unpack x.toModel.unpack) := rfl
  have hright : (x * z).toModel =
      Float.Model.pack (UnpackedFloat.mul .binary64 x.toModel.unpack z.toModel.unpack) := rfl
  rw [hz] at hleft hright
  rw [← isNumber_iff] at hx
  cases hu : x.toModel.unpack with
  | zero t =>
    rw [hu] at hleft hright
    exact ⟨⟨_, unpack_of_zero hleft⟩, ⟨_, unpack_of_zero hright⟩⟩
  | finite t m e hm =>
    rw [hu] at hleft hright
    exact ⟨⟨_, unpack_of_zero hleft⟩, ⟨_, unpack_of_zero hright⟩⟩
  | _ =>
    rw [hu] at hx
    exact hx.elim

theorem value_add_zero {x z : Float} (hx : x.isFinite = true) (hz : (z == 0) = true) :
    value (x + z) = value x := by
  obtain ⟨s, hz⟩ := (beq_zero_iff z).mp hz
  rw [← isNumber_iff] at hx
  rw [value_eq, value_eq]
  change valueOf (Float.Model.pack
    (UnpackedFloat.add .binary64 x.toModel.unpack z.toModel.unpack)).unpack = _
  rw [hz]
  cases hu : x.toModel.unpack with
  | zero t =>
    simp only [UnpackedFloat.add]
    split
    · rw [IsNumber.repack (u := .zero t) trivial]
    · rw [IsNumber.repack (u := .zero .positive) trivial]
      rfl
  | finite t m e hm =>
    rw [hu] at hx
    exact congrArg valueOf hx.repack
  | _ =>
    rw [hu] at hx
    exact hx.elim

theorem eq_of_unpack {x y : Float} (hx : x.isFinite = true) (h : x.toModel.unpack = y.toModel.unpack) :
    x = y := by
  obtain ⟨negative, m, e, hreading⟩ := reading_of_isFinite hx
  have hsame : reading y = .finite negative m e := by rw [reading_eq, ← h, ← reading_eq, hreading]
  rw [(eq_ofMagnitude_of_reading hreading).2, (eq_ofMagnitude_of_reading hsame).2]

theorem sub_zero {x : Float} (hx : x.isFinite = true) : x - 0 = x := by
  have hnumber := (isNumber_iff x).mpr hx
  refine (eq_of_unpack hx ?_).symm
  change _ = (Float.Model.pack
    (UnpackedFloat.sub .binary64 x.toModel.unpack (0 : Float).toModel.unpack)).unpack
  rw [unpack_zero, unpacked_sub]
  cases hu : x.toModel.unpack with
  | zero s => cases s <;> exact (IsNumber.repack (u := .zero _) trivial).symm
  | finite s m e hm =>
    rw [hu] at hnumber
    exact hnumber.repack.symm
  | _ =>
    rw [hu] at hnumber
    exact hnumber.elim

end Engraver.Double
