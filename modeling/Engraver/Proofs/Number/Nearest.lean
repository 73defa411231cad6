import Engraver.Number.Numeral
import Engraver.Proofs.Number.Bits

/-!
# The nearest double

What the double nearest to a ratio is where no rounding takes place, and that the powers which reading a
decimal leaves out make no difference.
-/

namespace Engraver

namespace Double

/-! ## The leading bit of a ratio -/

theorem two_zpow_pos (k : Int) : (0 : ℚ) < 2 ^ k := zpow_pos two_pos k

theorem two_zpow_le_ratio_iff (num : Nat) {den : Nat} (hden : 0 < den) (k : Int) :
    (if 0 ≤ k then den * Nat.pow 2 k.toNat ≤ num else den ≤ num * Nat.pow 2 (-k).toNat) ↔
      (2 : ℚ) ^ k ≤ (num : ℚ) / den := by
  have hden' : (0 : ℚ) < den := Nat.cast_pos.mpr hden
  rw [le_div_iff₀ hden']
  split
  · rename_i hk
    obtain ⟨n, rfl⟩ := Int.eq_ofNat_of_zero_le hk
    rw [Int.toNat_natCast, zpow_natCast, mul_comm]
    exact_mod_cast Iff.rfl
  · rename_i hk
    obtain ⟨n, rfl⟩ := Int.exists_eq_neg_ofNat (not_le.mp hk).le
    rw [neg_neg, Int.toNat_natCast, zpow_neg, zpow_natCast, inv_mul_le_iff₀ (by positivity), mul_comm]
    exact_mod_cast Iff.rfl

theorem binaryExponent_eq_log {num den : Nat} (hnum : 0 < num) (hden : 0 < den) :
    binaryExponent num den = Int.log 2 ((num : ℚ) / den) := by
  have hpos : (0 : ℚ) < (num : ℚ) / den := by positivity
  have hden' : (0 : ℚ) < den := Nat.cast_pos.mpr hden
  set k : Int := (num.log2 : Int) - den.log2 with hk
  -- The logarithms of the two numbers leave one bit open.
  have hlow : k - 1 ≤ Int.log 2 ((num : ℚ) / den) := by
    rw [← Int.zpow_le_iff_le_log one_lt_two hpos, Nat.cast_two, le_div_iff₀ hden']
    have h1 : (2 : ℚ) ^ num.log2 ≤ num := by exact_mod_cast Nat.log2_self_le hnum.ne'
    have h2 : (den : ℚ) ≤ 2 ^ (den.log2 + 1) := by exact_mod_cast Nat.lt_log2_self.le
    calc (2 : ℚ) ^ (k - 1) * den ≤ 2 ^ (k - 1) * 2 ^ (den.log2 + 1) := by gcongr
      _ = 2 ^ num.log2 := by
        rw [← zpow_natCast, ← zpow_natCast, ← zpow_add₀ two_ne_zero]
        congr 1
        omega
      _ ≤ num := h1
  have hhigh : Int.log 2 ((num : ℚ) / den) < k + 1 := by
    rw [← Int.lt_zpow_iff_log_lt one_lt_two hpos, Nat.cast_two, div_lt_iff₀ hden']
    have h1 : (num : ℚ) < 2 ^ (num.log2 + 1) := by exact_mod_cast Nat.lt_log2_self
    have h2 : (2 : ℚ) ^ den.log2 ≤ den := by exact_mod_cast Nat.log2_self_le hden.ne'
    calc (num : ℚ) < 2 ^ (num.log2 + 1) := h1
      _ = 2 ^ (k + 1) * 2 ^ den.log2 := by
        rw [← zpow_natCast, ← zpow_natCast, ← zpow_add₀ two_ne_zero]
        congr 1
        omega
      _ ≤ 2 ^ (k + 1) * den := by gcongr
  have hreaches : (2 : ℚ) ^ k ≤ (num : ℚ) / den ↔ k ≤ Int.log 2 ((num : ℚ) / den) := by
    rw [← Int.zpow_le_iff_le_log one_lt_two hpos, Nat.cast_two]
  unfold binaryExponent
  dsimp only
  rw [← hk]
  by_cases h : k ≤ Int.log 2 ((num : ℚ) / den)
  · rw [if_pos ((two_zpow_le_ratio_iff num hden k).mpr (hreaches.mpr h))]
    omega
  · rw [if_neg (mt (two_zpow_le_ratio_iff num hden k).mp (mt hreaches.mp h))]
    omega

/-! ## Rounding to a whole number -/

theorem roundHalfEven_exact (q : Nat) {d : Nat} (hd : 0 < d) : roundHalfEven (q * d) d = q := by
  unfold roundHalfEven
  simp [Nat.mul_mod_left, Nat.mul_div_cancel q hd, hd]

theorem roundHalfEven_small {n d : Nat} (h : 2 * n < d) : roundHalfEven n d = 0 := by
  have hlt : n < d := by omega
  unfold roundHalfEven
  simp [Nat.mod_eq_of_lt hlt, Nat.div_eq_of_lt hlt, h]

theorem div_le_roundHalfEven (n d : Nat) : n / d ≤ roundHalfEven n d := by
  unfold roundHalfEven
  dsimp only
  split
  · exact le_rfl
  · split <;> omega

/-! ## Ratios that are not rounded -/

theorem log_mul_two_zpow {m : Nat} (hm : 0 < m) (e : Int) : Int.log 2 ((m : ℚ) * 2 ^ e) = m.log2 + e := by
  have hpos : (0 : ℚ) < m * 2 ^ e := mul_pos (Nat.cast_pos.mpr hm) (two_zpow_pos e)
  refine le_antisymm (Int.lt_add_one_iff.mp ?_) ?_
  · rw [← Int.lt_zpow_iff_log_lt one_lt_two hpos, Nat.cast_two, add_right_comm, zpow_add₀ two_ne_zero]
    exact mul_lt_mul_of_pos_right (by exact_mod_cast Nat.lt_log2_self) (two_zpow_pos e)
  · rw [← Int.zpow_le_iff_le_log one_lt_two hpos, Nat.cast_two, zpow_add₀ two_ne_zero, zpow_natCast]
    exact mul_le_mul_of_nonneg_right (by exact_mod_cast Nat.log2_self_le hm.ne') (two_zpow_pos e).le

theorem Canonical.unit_eq {m : Nat} {e : Int} (hc : Canonical m e) (hm : 0 < m) :
    max (-1074) ((m.log2 : Int) + e - 52) = e := by
  obtain ⟨hleast, -, hfits, hfull⟩ := hc
  have hlt : m.log2 < 53 := (Nat.log2_lt hm.ne').mpr hfits
  rcases hfull with rfl | hfull
  · omega
  · have hle : 52 ≤ m.log2 := (Nat.le_log2 hm.ne').mpr hfull
    omega

/-- A magnitude that is a double is its own nearest double, whatever ratio it is given as. -/
theorem nearestBits_exact {m : Nat} {e : Int} (hc : Canonical m e) {num den : Nat} (hden : 0 < den)
    (h : (num : ℚ) / den = m * 2 ^ e) : nearestBits num den = magnitudeBits m e := by
  have hden' : (den : ℚ) ≠ 0 := by positivity
  have hnum := (div_eq_iff hden').mp h
  rcases Nat.eq_zero_or_pos m with rfl | hm
  · have he : e = -1074 := hc.full.resolve_right (by unfold fieldBit; omega)
    have hzero : num = 0 := by simpa using hnum
    simp [nearestBits, magnitudeBits, hzero, he]
  · have hpos : 0 < num := by
      have : (0 : ℚ) < num := hnum ▸ by positivity
      exact_mod_cast this
    unfold nearestBits magnitudeBits
    rw [if_neg hpos.ne', binaryExponent_eq_log hpos hden, h, log_mul_two_zpow hm, hc.unit_eq hm]
    dsimp only
    congr 1
    split
    · rename_i he
      obtain ⟨n, rfl⟩ := Int.eq_ofNat_of_zero_le he
      have hexact : num = m * (den * 2 ^ n) := by
        rw [zpow_natCast, mul_right_comm, mul_assoc] at hnum
        exact_mod_cast hnum
      rw [Int.toNat_natCast, hexact]
      exact roundHalfEven_exact m (by positivity)
    · rename_i he
      obtain ⟨n, rfl⟩ := Int.exists_eq_neg_ofNat (not_le.mp he).le
      have hexact : num * 2 ^ n = m * den := by
        have : (num : ℚ) * 2 ^ n = m * den := by
          rw [hnum, zpow_neg, zpow_natCast]
          field_simp
        exact_mod_cast this
      rw [neg_neg, Int.toNat_natCast, Nat.pow_eq, hexact]
      exact roundHalfEven_exact m hden

theorem infinityBits_le_nearestBits {num : Nat} (h : 1024 ≤ num.log2) :
    infinityBits ≤ nearestBits num 1 := by
  have hpos : 0 < num := by
    rw [Nat.pos_iff_ne_zero]
    rintro rfl
    simp at h
  have hlog : binaryExponent num 1 = num.log2 := by
    have hcast := log_mul_two_zpow hpos 0
    rw [binaryExponent_eq_log hpos one_pos]
    simpa using hcast
  obtain ⟨n, hn⟩ : ∃ n, num.log2 = n + 52 := ⟨num.log2 - 52, by omega⟩
  have hunit : max (-1074) ((num.log2 : Int) - 52) = n := by omega
  have hmantissa : fieldBit ≤ roundHalfEven num (1 * Nat.pow 2 n) := by
    refine le_trans ?_ (div_le_roundHalfEven _ _)
    rw [one_mul, Nat.pow_eq, Nat.le_div_iff_mul_le (Nat.two_pow_pos n)]
    calc fieldBit * 2 ^ n = 2 ^ num.log2 := by rw [hn, Nat.add_comm, Nat.pow_add]; rfl
      _ ≤ num := Nat.log2_self_le hpos.ne'
  unfold nearestBits infinityBits
  rw [if_neg hpos.ne', hlog, hunit]
  dsimp only
  rw [if_pos (Int.natCast_nonneg n), Int.toNat_natCast]
  unfold fieldBit at *
  omega

theorem nearestBits_small {num den k : Nat} (hk : 1074 ≤ k) (h : num * 2 ^ (k + 1) < den) :
    nearestBits num den = 0 := by
  rcases Nat.eq_zero_or_pos num with rfl | hpos
  · rfl
  · have hden : 0 < den := by omega
    have hratio : (0 : ℚ) < (num : ℚ) / den := by positivity
    have hlog : binaryExponent num den < -(k + 1 : Nat) := by
      rw [binaryExponent_eq_log hpos hden, ← Int.lt_zpow_iff_log_lt one_lt_two hratio, Nat.cast_two,
        div_lt_iff₀ (by positivity), zpow_neg, zpow_natCast, lt_inv_mul_iff₀ (by positivity), mul_comm]
      exact_mod_cast h
    obtain ⟨n, hn⟩ : ∃ n : Nat, n = 1074 := ⟨_, rfl⟩
    have hunit : max (-1074) (binaryExponent num den - 52) = -n := by omega
    have hhalf : 2 * (num * 2 ^ n) < den := by
      calc 2 * (num * 2 ^ n) ≤ 2 * (num * 2 ^ k) := by gcongr <;> omega
        _ = num * 2 ^ (k + 1) := by ring
        _ < den := h
    unfold nearestBits
    rw [if_neg hpos.ne', hunit]
    dsimp only
    rw [if_neg (by omega), neg_neg, Int.toNat_natCast, Nat.pow_eq, roundHalfEven_small hhalf]
    simp [hn]

/-! ## Decimals -/

theorem infinity_eq {bits : Nat} (h : infinityBits ≤ bits) (negative : Bool) :
    infinity negative = ofMagnitude negative bits := by
  unfold infinity ofMagnitude
  rw [Nat.min_self, Nat.min_eq_right h]

end Double

namespace Numeral

open Double (nearest)

theorem two_pow_le_ten_pow (n : Nat) : 2 ^ (3 * n) ≤ 10 ^ n := by
  rw [Nat.pow_mul]
  exact Nat.pow_le_pow_left (by norm_num) n

theorem nearestDecimal_natCast (negative : Bool) (m n : Nat) :
    nearestDecimal negative m n = nearest negative (m * 10 ^ n) 1 := by
  unfold nearestDecimal
  split
  · rename_i hm
    rw [hm, Nat.zero_mul]
  · rename_i hm
    split
    · rename_i h
      have hlog : m.log2 + 3 * n ≤ (m * 10 ^ n).log2 := by
        rw [Nat.le_log2 (by positivity)]
        calc 2 ^ (m.log2 + 3 * n) = 2 ^ m.log2 * 2 ^ (3 * n) := Nat.pow_add ..
          _ ≤ m * 10 ^ n := Nat.mul_le_mul (Nat.log2_self_le hm) (two_pow_le_ten_pow n)
      have hlarge : 1024 ≤ (m * 10 ^ n).log2 := by omega
      exact Double.infinity_eq (Double.infinityBits_le_nearestBits hlarge) negative
    · rw [if_neg (by omega), if_pos (Int.natCast_nonneg n), Int.toNat_natCast]
      rfl

theorem nearestDecimal_neg_natCast (negative : Bool) (m n : Nat) :
    nearestDecimal negative m (-n) = nearest negative m (10 ^ n) := by
  rcases Nat.eq_zero_or_pos n with rfl | hn
  · simpa using nearestDecimal_natCast negative m 0
  · unfold nearestDecimal
    split
    · rename_i hm
      rw [hm]
      simp [nearest, Double.nearestBits]
    · rename_i hm
      rw [if_neg (by omega)]
      split
      · rename_i h
        obtain ⟨k, hk⟩ : ∃ k, 3 * n = m.log2 + 1 + (k + 1) := ⟨3 * n - m.log2 - 2, by omega⟩
        have hsmall : m * 2 ^ (k + 1) < 10 ^ n := by
          calc m * 2 ^ (k + 1) < 2 ^ (m.log2 + 1) * 2 ^ (k + 1) :=
                Nat.mul_lt_mul_of_pos_right Nat.lt_log2_self (Nat.two_pow_pos _)
            _ = 2 ^ (3 * n) := by rw [hk, ← Nat.pow_add]
            _ ≤ 10 ^ n := two_pow_le_ten_pow n
        rw [nearest, nearest, Double.nearestBits_small (by omega) hsmall]
        rfl
      · rw [if_neg (by omega), neg_neg, Int.toNat_natCast]
        rfl

theorem nearestDecimal_eq_ofMagnitude {m bits : Nat} {e : Int}
    (h : nearestDecimal false m e = Double.ofMagnitude false bits) (negative : Bool) :
    nearestDecimal negative m e = Double.ofMagnitude negative bits := by
  obtain ⟨n, rfl | rfl⟩ := Int.eq_nat_or_neg e
  · rw [nearestDecimal_natCast] at h ⊢
    exact Double.ofMagnitude_congr h negative
  · rw [nearestDecimal_neg_natCast] at h ⊢
    exact Double.ofMagnitude_congr h negative

end Numeral

end Engraver
