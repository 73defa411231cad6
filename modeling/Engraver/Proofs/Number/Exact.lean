import Engraver.Proofs.Number.Range

/-!
# The nearest double

What is rounded to a finite double is rounded to one that no other is nearer than. So it is exact where it can
be: a difference of two doubles is one itself if it is no further from zero than both of them.
-/

namespace Engraver.Double

open Float.Model
open Float.Model.UnpackedFloat (Sign)

/-! ## Grids -/

/-- A whole number of units. -/
def OnGrid (e : Int) (v : ℚ) : Prop := ∃ k : Int, v = k * 2 ^ e

theorem OnGrid.neg {e : Int} {v : ℚ} (h : OnGrid e v) : OnGrid e (-v) := by
  obtain ⟨k, rfl⟩ := h
  exact ⟨-k, by push_cast; ring⟩

theorem OnGrid.sub {e : Int} {v w : ℚ} (hv : OnGrid e v) (hw : OnGrid e w) : OnGrid e (v - w) := by
  obtain ⟨k, rfl⟩ := hv
  obtain ⟨l, rfl⟩ := hw
  exact ⟨k - l, by push_cast; ring⟩

theorem OnGrid.mono {e f : Int} {v : ℚ} (h : OnGrid f v) (hef : e ≤ f) : OnGrid e v := by
  obtain ⟨k, rfl⟩ := h
  obtain ⟨j, hj⟩ := Int.eq_ofNat_of_zero_le (show 0 ≤ f - e by omega)
  refine ⟨k * 2 ^ j, ?_⟩
  rw [show f = j + e by omega, zpow_add₀ two_ne_zero, zpow_natCast]
  push_cast
  ring

/-- A number of fifty-three bits at most, with an exponent that may be too large for a double. -/
def Fits (v : ℚ) : Prop :=
  ∃ e, -1074 ≤ e ∧ OnGrid e v ∧ |v| < 2 ^ 53 * 2 ^ e

theorem Fits.neg {v : ℚ} (h : Fits v) : Fits (-v) := by
  obtain ⟨e, hleast, hgrid, hlt⟩ := h
  exact ⟨e, hleast, hgrid.neg, by rwa [abs_neg]⟩

/-- The grid of a double: all its bits are used, or the exponent is the least. -/
structure Grid (v : ℚ) (e : Int) : Prop where
  least : -1074 ≤ e
  on : OnGrid e v
  fits : |v| < 2 ^ 53 * 2 ^ e
  full : e = -1074 ∨ 2 ^ 52 * 2 ^ e ≤ |v|

theorem Grid.neg {v : ℚ} {e : Int} (h : Grid v e) : Grid (-v) e :=
  ⟨h.least, h.on.neg, by rw [abs_neg]; exact h.fits, by rw [abs_neg]; exact h.full⟩

theorem exists_grid {x : Float} (hx : x.isFinite = true) : ∃ e, Grid (value x) e := by
  have hnumber := (isNumber_iff x).mpr hx
  rw [value_eq]
  cases hu : x.toModel.unpack with
  | finite s m e hm =>
    rw [hu] at hnumber
    have hpos : (0 : ℚ) < 2 ^ e := zpow_pos two_pos e
    have hsize : |valueOf (.finite s m e hm)| = m * 2 ^ e := abs_apply s m e
    refine ⟨e, hnumber.least, ⟨s.apply m, rfl⟩, ?_, hnumber.full.imp_right fun hfull => ?_⟩
    · rw [hsize]
      gcongr
      exact_mod_cast hnumber.fits
    · rw [hsize]
      gcongr
      exact_mod_cast hfull
  | zero s =>
    refine ⟨-1074, le_rfl, ⟨0, by simp [valueOf]⟩, ?_, .inl rfl⟩
    rw [valueOf, abs_zero]
    · positivity
    · simp
  | _ =>
    rw [hu] at hnumber
    exact hnumber.elim

namespace Grid

variable {u v w : ℚ} {e f : Int}

theorem on_of_le (hu : Grid u e) (hv : Grid v f) (h : |u| ≤ |v|) : OnGrid e v := by
  rcases le_or_gt e f with hef | hfe
  · exact hv.on.mono hef
  · have hfull := hu.full.resolve_left (by have := hv.least; omega)
    have hcoarse : (2 : ℚ) ^ 53 * 2 ^ f ≤ 2 ^ 52 * 2 ^ e := by
      calc (2 : ℚ) ^ 53 * 2 ^ f = 2 ^ 52 * 2 ^ (f + 1) := by rw [zpow_add_one₀ two_ne_zero]; ring
        _ ≤ 2 ^ 52 * 2 ^ e := by
          gcongr
          · exact one_le_two
          · omega
    exact absurd (hv.fits.trans_le hcoarse) (not_lt.mpr (hfull.trans h))

theorem fits_of_le (hu : Grid u e) (hw : OnGrid e w) (h : |w| ≤ |u|) : Fits w :=
  ⟨e, hu.least, hw, h.trans_lt hu.fits⟩

theorem fits_sub (hu : Grid u e) (hv : Grid v f) (hle : |u - v| ≤ |u|) (hle' : |u - v| ≤ |v|) : Fits (u - v) := by
  rcases le_total |u| |v| with h | h
  · exact hu.fits_of_le (hu.on.sub (hu.on_of_le hv h)) hle
  · exact hv.fits_of_le ((hv.on_of_le hu h).sub hv.on) hle'

end Grid

/-! ## Rounding -/

/-- No double is nearer to `v` than `r`. -/
def Nearest (r v : ℚ) : Prop := ∀ w, Fits w → |r - v| ≤ |w - v|

theorem Nearest.eq {r v : ℚ} (h : Nearest r v) (hv : Fits v) : r = v := by
  have hzero := h v hv
  rw [sub_self, abs_zero, abs_nonpos_iff] at hzero
  exact sub_eq_zero.mp hzero

theorem near_on_grid {v w : ℚ} {t : Int} {r : Nat} (hclose : |r * 2 ^ t - v| ≤ 2 ^ t / 2) (hw : OnGrid t w) :
    |r * 2 ^ t - v| ≤ |w - v| := by
  obtain ⟨k, rfl⟩ := hw
  rcases eq_or_ne k r with rfl | hne
  · rw [Int.cast_natCast]
  · have hunit : (2 : ℚ) ^ t ≤ |(k : ℚ) * 2 ^ t - r * 2 ^ t| := by
      have hwhole : (1 : ℚ) ≤ |((k - r : Int) : ℚ)| := by
        exact_mod_cast Int.one_le_abs (sub_ne_zero.mpr hne)
      rw [← sub_mul, abs_mul, abs_of_pos (zpow_pos two_pos t : (0 : ℚ) < 2 ^ t)]
      push_cast at hwhole
      exact le_mul_of_one_le_left (zpow_pos two_pos t).le hwhole
    have htriangle := abs_sub_le ((k : ℚ) * 2 ^ t) v (r * 2 ^ t)
    rw [abs_sub_comm v] at htriangle
    linarith

theorem near_fits {v w : ℚ} {t : Int} {r : Nat} (hclose : |r * 2 ^ t - v| ≤ 2 ^ t / 2)
    (hfull : t = -1074 ∨ 2 ^ 52 * 2 ^ t ≤ v) (hw : Fits w) : |r * 2 ^ t - v| ≤ |w - v| := by
  obtain ⟨e, hleast, hgrid, hlt⟩ := hw
  rcases le_or_gt t e with hte | het
  · exact near_on_grid hclose (hgrid.mono hte)
  · have hv := hfull.resolve_left (by omega)
    have hfine : (2 : ℚ) ^ 53 * 2 ^ e ≤ 2 ^ 52 * 2 ^ t := by
      calc (2 : ℚ) ^ 53 * 2 ^ e = 2 ^ 52 * 2 ^ (e + 1) := by rw [zpow_add_one₀ two_ne_zero]; ring
        _ ≤ 2 ^ 52 * 2 ^ t := by
          gcongr
          · exact one_le_two
          · omega
    have hend := near_on_grid hclose (w := 2 ^ 52 * 2 ^ t) ⟨2 ^ 52, by push_cast; rfl⟩
    have hbelow : w ≤ 2 ^ 52 * 2 ^ t := (le_abs_self w).trans (hlt.le.trans hfine)
    rw [abs_sub_comm (2 ^ 52 * 2 ^ t : ℚ), abs_of_nonneg (sub_nonneg.mpr hv)] at hend
    rw [abs_sub_comm w, abs_of_nonneg (sub_nonneg.mpr (hbelow.trans hv))]
    linarith

theorem apply_natCast (s : Sign) (n : Nat) : (s.apply n : ℚ) = s.apply 1 * n := by
  cases s <;> simp [Sign.apply]

theorem Nearest.signed (s : Sign) {r v : ℚ} (h : Nearest r v) : Nearest (s.apply 1 * r) (s.apply 1 * v) := by
  cases s with
  | positive => simpa [Sign.apply] using h
  | negative =>
    intro w hw
    have hneg := h (-w) hw.neg
    rw [← abs_neg, ← abs_neg (-w - v)] at hneg
    convert hneg using 2 <;> simp [Sign.apply] <;> ring

/-- What a mantissa stands for is rounded to the nearest double, whatever is left below the mantissa. -/
theorem round_stands_nearest (s : Sign) {m : Nat} {e : Int} {accuracy : UnpackedFloat.Accuracy} {y : ℚ}
    (h : e ≤ unit m e) (hy : Stands (.ofMantissaAndAccuracy m accuracy) y)
    (hnumber : IsNumber (Float.Model.pack (UnpackedFloat.roundWithAccuracy .binary64 s m e accuracy)).unpack) :
    Nearest (valueOf (Float.Model.pack (UnpackedFloat.roundWithAccuracy .binary64 s m e accuracy)).unpack)
      (s.apply 1 * (y * 2 ^ e)) := by
  obtain ⟨n, f, hshaped, r, hr, hclose, -⟩ := round_stands s h hy
  rw [hshaped.repack hnumber, apply_natCast, mul_assoc]
  refine Nearest.signed s fun w hw => ?_
  rw [hr]
  refine near_fits hclose ((units_bounds h hy.between_mantissa).2.imp_right fun hfull => ?_) hw
  calc (2 : ℚ) ^ 52 * 2 ^ unit m e ≤ y * 2 ^ (e - unit m e) * 2 ^ unit m e := by gcongr
    _ = y * 2 ^ e := by rw [mul_assoc, ← zpow_add₀ two_ne_zero, sub_add_cancel]

theorem round_nearest (s : Sign) {m : Nat} {e : Int} (hm : 0 < m)
    (hnumber : IsNumber (Float.Model.pack (UnpackedFloat.round .binary64 s m e)).unpack) :
    Nearest (valueOf (Float.Model.pack (UnpackedFloat.round .binary64 s m e)).unpack) (s.apply m * 2 ^ e) := by
  obtain ⟨n, f, -, hunit, -, hround, hvalue⟩ := exists_round_eq s (e := e) hm
  rw [hround] at hnumber ⊢
  rw [← hvalue s, apply_natCast, mul_assoc]
  exact round_stands_nearest s hunit rfl hnumber

theorem rounds_nearest : Rounds Nearest where
  same v w _ := by
    rw [sub_self, abs_zero]
    exact abs_nonneg _
  round s _ _ hm _ := round_nearest s hm

/-! ## Landing -/

variable {x c : Float}

theorem Fits.of_isFinite (hx : x.isFinite = true) : Fits (value x) := by
  obtain ⟨e, h⟩ := exists_grid hx
  exact ⟨e, h.least, h.on, h.fits⟩

/-- A way that is added to where it was taken from errs at most twice as much as the way. -/
theorem landing_error (h : (c + (x - c)).isFinite = true) :
    |value (c + (x - c)) - value x| ≤ 2 * |value (x - c) - (value x - value c)| := by
  obtain ⟨-, hd⟩ := operands_of_add h
  obtain ⟨hx, -⟩ := operands_of_sub hd
  have hsum := rounds_nearest.add h (value x) (.of_isFinite hx)
  have herror : value x - (value c + value (x - c)) = -(value (x - c) - (value x - value c)) := by ring
  rw [herror, abs_neg] at hsum
  calc |value (c + (x - c)) - value x|
      = |value (c + (x - c)) - (value c + value (x - c)) + (value (x - c) - (value x - value c))| := by
        congr 1
        ring
    _ ≤ 2 * |value (x - c) - (value x - value c)| := (abs_add_le _ _).trans (by linarith)

theorem landing_close (h : (c + (x - c)).isFinite = true) :
    |value (c + (x - c)) - value x| ≤ |value x - value c| / 2 ^ 52 := by
  have hclose := rounds_close.sub (operands_of_add h).2
  linarith [landing_error h]

theorem landing_exact (h : (c + (x - c)).isFinite = true) (hway : Fits (value x - value c)) :
    value (c + (x - c)) = value x := by
  have herror := landing_error h
  rw [(rounds_nearest.sub (operands_of_add h).2).eq hway, sub_self, abs_zero, mul_zero, abs_nonpos_iff] at herror
  exact sub_eq_zero.mp herror

theorem fits_remaining_near (h : (c + (x - c)).isFinite = true) (hnear : |value c| ≤ 4 * |value x|) :
    Fits (value x - value (c + (x - c))) := by
  obtain ⟨hx, -⟩ := operands_of_sub (operands_of_add h).2
  obtain ⟨e, hgridX⟩ := exists_grid hx
  obtain ⟨f, hgridP⟩ := exists_grid h
  have hclose := landing_close h
  have hway : |value x - value c| ≤ 5 * |value x| := (abs_sub _ _).trans (by linarith)
  have hleft : |value x - value (c + (x - c))| ≤ |value x| / 2 := by
    rw [abs_sub_comm]
    linarith [abs_nonneg (value x)]
  have hback : |value x| ≤ |value (c + (x - c))| + |value x - value (c + (x - c))| := by
    calc |value x| = |value (c + (x - c)) + (value x - value (c + (x - c)))| := by rw [add_sub_cancel]
      _ ≤ _ := abs_add_le _ _
  exact hgridX.fits_sub hgridP (by linarith [abs_nonneg (value x)]) (by linarith)

theorem fits_remaining_far (h : (c + (x - c)).isFinite = true) (hfar : 4 * |value x| < |value c|) :
    Fits (value x - value (c + (x - c))) := by
  obtain ⟨hc, hd⟩ := operands_of_add h
  obtain ⟨hx, -⟩ := operands_of_sub hd
  obtain ⟨e, hgridX⟩ := exists_grid hx
  obtain ⟨f, hgridC⟩ := exists_grid hc
  obtain ⟨g, hgridD⟩ := exists_grid hd
  have herror : |value (x - c) - (value x - value c)| ≤ |value x| := by
    have hzero := rounds_nearest.sub hd (-value c) (Fits.of_isFinite hc).neg
    rwa [show -value c - (value x - value c) = -value x by ring, abs_neg] at hzero
  have hend : |value c - -value (x - c)| ≤ 2 * |value x| := by
    calc |value c - -value (x - c)| = |value (x - c) - (value x - value c) + value x| := by
          congr 1
          ring
      _ ≤ 2 * |value x| := (abs_add_le _ _).trans (by linarith)
  have hback : |value c| ≤ |value c - -value (x - c)| + |value (x - c)| := by
    calc |value c| = |value c - -value (x - c) + -value (x - c)| := by rw [sub_add_cancel]
      _ ≤ _ := (abs_add_le _ _).trans_eq (by rw [abs_neg])
  have hpos := abs_nonneg (value x)
  have hsum : Fits (value c - -value (x - c)) :=
    hgridC.fits_sub hgridD.neg (by linarith) (by rw [abs_neg]; linarith)
  rw [sub_neg_eq_add] at hsum
  have hlast : value x - (value c + value (x - c)) = -(value (x - c) - (value x - value c)) := by ring
  rw [(rounds_nearest.add h).eq hsum]
  refine hgridX.fits_of_le ?_ (by rw [hlast, abs_neg]; exact herror)
  rw [← sub_sub]
  exact (hgridX.on.sub (hgridX.on_of_le hgridC (by linarith))).sub (hgridX.on_of_le hgridD (by linarith))

/-- What is left of the way after a first attempt is a double. -/
theorem fits_remaining (h : (c + (x - c)).isFinite = true) : Fits (value x - value (c + (x - c))) :=
  (le_or_gt |value c| (4 * |value x|)).elim (fits_remaining_near h) (fits_remaining_far h)

theorem arrives {p : Float} (hx : x.isFinite = true) (hp : p.isFinite = true) (hway : Fits (value x - value p))
    (hsmall : |value x - value p| < overflowBound) :
    (x - p).isFinite = true ∧ value (x - p) = value x - value p ∧
      (p + (x - p)).isFinite = true ∧ value (p + (x - p)) = value x := by
  have hd := isFinite_sub hx hp hsmall
  have hvalue := (rounds_nearest.sub hd).eq hway
  have hsum : (p + (x - p)).isFinite = true := by
    apply isFinite_add hp hd
    rw [hvalue, add_sub_cancel]
    exact abs_value_lt hx
  exact ⟨hd, hvalue, hsum, landing_exact hsum hway⟩

end Engraver.Double
