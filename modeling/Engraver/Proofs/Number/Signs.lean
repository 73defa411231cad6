import Mathlib

/-!
# Signs of doubles

Sums and quotients keep their signs, whatever is rounded, overflows or is not a number at all. A zero and
NaN count under either sign.
-/

namespace Engraver.Double

open Float.Model
open Float.Model.UnpackedFloat (Sign)

/-- NaN, a zero, or a number of the given sign. -/
def OfSign (s : Sign) : UnpackedFloat → Prop
  | .notANumber | .zero _ => True
  | .infinity t | .finite t .. => t = s

theorem ofSign_components (s : Sign) (e : BitVec 11) (m : BitVec 52) :
    OfSign s (UnpackedFloat.unpack .binary64 (UnpackedFloat.packComponents .binary64 s e m)) := by
  unfold UnpackedFloat.unpack
  simp only [UnpackedFloat.unpackSign_packComponents, Sign.ofBitVec_toBitVec]
  split
  · split <;> trivial
  · split
    · split <;> trivial
    · rfl

theorem OfSign.repack {s : Sign} {u : UnpackedFloat} (h : OfSign s u) :
    OfSign s (Float.Model.pack u).unpack := by
  change OfSign s (UnpackedFloat.unpack .binary64 (UnpackedFloat.pack .binary64 u))
  cases u with
  | notANumber => rw [UnpackedFloat.pack, UnpackedFloat.unpack_packedNaN]; trivial
  | zero t => rw [UnpackedFloat.pack, UnpackedFloat.unpack_packedZero]; trivial
  | infinity t => cases h; exact ofSign_components s _ _
  | finite t m e hm =>
    cases h
    unfold UnpackedFloat.pack
    dsimp only
    split
    · exact ofSign_components s _ _
    · split <;> exact ofSign_components s _ _

theorem ofSign_round (s : Sign) (m : Nat) (e : Int) (accuracy : UnpackedFloat.Accuracy) :
    OfSign s (UnpackedFloat.roundWithAccuracy .binary64 s m e accuracy) := by
  unfold UnpackedFloat.roundWithAccuracy
  dsimp only
  split <;> trivial

theorem ofSign_normalize (s t : Sign) (m : Nat) (e : Int) :
    OfSign s (UnpackedFloat.normalize .binary64 (s.apply m) e t) := by
  unfold UnpackedFloat.normalize
  split
  · rename_i h
    rw [Int.compare_eq_lt] at h
    cases s with
    | negative => exact ofSign_round _ _ _ _
    | positive => simp only [Sign.apply] at h; omega
  · trivial
  · rename_i h
    rw [Int.compare_eq_gt] at h
    cases s with
    | positive => exact ofSign_round _ _ _ _
    | negative => simp only [Sign.apply] at h; omega

theorem apply_add (s : Sign) (m n : Nat) : s.apply m + s.apply n = s.apply (m + n : Nat) := by
  cases s <;> simp only [Sign.apply] <;> omega

theorem OfSign.neg {s : Sign} {u : UnpackedFloat} (h : OfSign s u) : OfSign (-s) u.neg := by
  cases u <;> first | trivial | (cases h; rfl)

theorem OfSign.add {s : Sign} {u v : UnpackedFloat} (hu : OfSign s u) (hv : OfSign s v) :
    OfSign s (UnpackedFloat.add .binary64 u v) := by
  cases u <;> cases v <;> cases hu <;> cases hv <;> simp only [UnpackedFloat.add]
  case finite.finite =>
    rw [apply_add]
    exact ofSign_normalize _ _ _ _
  all_goals first | trivial | rfl | (split <;> trivial)

theorem OfSign.div {s : Sign} {u : UnpackedFloat} (hu : OfSign s u) (t : Sign) (m : Nat) (e : Int)
    (hm : 0 < m) : OfSign (s / t) (UnpackedFloat.div .binary64 u (.finite t m e hm)) := by
  cases u <;> cases hu <;> first | trivial | rfl | exact ofSign_round _ _ _ _

theorem ofSign_zero_div (s t : Sign) (v : UnpackedFloat) :
    OfSign s (UnpackedFloat.div .binary64 (.zero t) v) := by
  cases v <;> trivial

theorem OfSign.not_lt {u v : UnpackedFloat} (hu : OfSign .positive u) (hv : OfSign .negative v) :
    u.lt v = false := by
  cases u <;> cases v <;> cases hu <;> cases hv <;> rfl

theorem lt_iff (x y : Float) : x < y ↔ x.toModel.unpack.lt y.toModel.unpack = true :=
  decide_eq_true_iff

theorem unpack_zero : (0 : Float).toModel.unpack = .zero .positive := by
  have hbits : (0 : Float).toModel.toBits = 0 := by decide +kernel
  rw [Float.Model.unpack, hbits]
  rfl

theorem unpack_of_positive {x : Float} (hfinite : x.isFinite = true) (hpos : 0 < x) :
    ∃ m e hm, x.toModel.unpack = .finite .positive m e hm := by
  change x.toModel.unpack.isFinite = true at hfinite
  rw [lt_iff, unpack_zero] at hpos
  cases h : x.toModel.unpack with
  | finite s m e hm =>
    rw [h] at hpos
    cases s with
    | positive => exact ⟨m, e, hm, rfl⟩
    | negative => cases hpos
  | zero s => rw [h] at hpos; cases hpos
  | _ => rw [h] at hfinite; cases hfinite

theorem ofSign_of_positive {x : Float} (hfinite : x.isFinite = true) (hpos : 0 < x) :
    OfSign .positive x.toModel.unpack := by
  obtain ⟨m, e, hm, hx⟩ := unpack_of_positive hfinite hpos
  rw [hx]
  rfl

theorem not_lt_of_signs {x y : Float} (hx : OfSign .positive x.toModel.unpack)
    (hy : OfSign .negative y.toModel.unpack) : ¬ x < y := by
  rw [lt_iff, hx.not_lt hy]
  exact Bool.false_ne_true

end Engraver.Double
