import Mathlib
import Engraver.Number.Double

/-!
# Doubles and their bits

A finite double is its sign and the bits of its magnitude, and the bits of a magnitude are its mantissa
counted on from the least double with its exponent.
-/

namespace Engraver.Double

open Float.Model.UnpackedFloat (unpackExponent unpackMantissa)

/-! ## Patterns that are doubles -/

theorem unpackExponent_toNat (bits : UInt64) :
    (@unpackExponent .binary64 bits.toBitVec).toNat = bits.toNat / fieldBit % 2048 := by
  rw [Float.Model.UnpackedFloat.unpackExponent_def, BitVec.extractLsb'_toNat, Nat.shiftRight_eq_div_pow]
  rfl

theorem unpackMantissa_toNat (bits : UInt64) :
    (@unpackMantissa .binary64 bits.toBitVec).toNat = bits.toNat % fieldBit := by
  rw [Float.Model.UnpackedFloat.unpackMantissa_def, BitVec.extractLsb'_toNat, Nat.shiftRight_zero]
  rfl

theorem unpackExponent_eq_ones_iff (bits : UInt64) :
    @unpackExponent .binary64 bits.toBitVec = -1#11 ↔ bits.toNat / fieldBit % 2048 = 2047 := by
  rw [← BitVec.toNat_inj, unpackExponent_toNat]
  rfl

theorem unpackMantissa_eq_zero_iff (bits : UInt64) :
    @unpackMantissa .binary64 bits.toBitVec = 0#52 ↔ bits.toNat % fieldBit = 0 := by
  rw [← BitVec.toNat_inj, unpackMantissa_toNat]
  rfl

theorem toBits_ofBits {bits : UInt64}
    (h : bits.toNat / fieldBit % 2048 = 2047 → bits.toNat % fieldBit = 0) :
    (Float.ofBits bits).toBits = bits := by
  have hvalid : Float.Model.Format.binary64.Valid bits.toBitVec :=
    ⟨fun hones hfraction => absurd ((unpackMantissa_eq_zero_iff bits).mpr
      (h ((unpackExponent_eq_ones_iff bits).mp hones))) hfraction⟩
  exact UInt64.toBitVec_inj.mp (Float.Model.UnpackedFloat.pack_unpack_of_valid hvalid)

theorem isFinite_iff (x : Float) : x.isFinite = true ↔ x.toBits.toNat / fieldBit % 2048 ≠ 2047 := by
  rw [ne_eq, ← unpackExponent_eq_ones_iff]
  change (Float.Model.UnpackedFloat.unpack .binary64 x.toBits.toBitVec).isFinite = true ↔ _
  unfold Float.Model.UnpackedFloat.unpack
  by_cases hones : @unpackExponent .binary64 x.toBits.toBitVec = -1#11
  · dsimp only
    rw [if_pos hones]
    split <;> exact iff_of_false nofun (not_not_intro hones)
  · dsimp only
    rw [if_neg hones]
    split
    · split <;> exact iff_of_true rfl hones
    · exact iff_of_true rfl hones

theorem toBits_ofMagnitude (negative : Bool) {bits : Nat} (h : bits ≤ infinityBits) :
    (ofMagnitude negative bits).toBits.toNat = bits + if negative then signBit else 0 := by
  obtain ⟨sign, hsign, hcases⟩ :
      ∃ sign, (if negative then signBit else 0) = sign ∧ (sign = 0 ∨ sign = signBit) :=
    ⟨_, rfl, by cases negative <;> simp⟩
  rw [ofMagnitude, Nat.min_eq_left h, hsign]
  unfold infinityBits fieldBit signBit at *
  have hnat : (UInt64.ofNat (bits + sign)).toNat = bits + sign :=
    UInt64.toNat_ofNat_of_lt' (by unfold UInt64.size; omega)
  rw [toBits_ofBits] <;> rw [hnat]
  unfold fieldBit
  omega

theorem ofMagnitude_congr {bits bits' : Nat} (h : ofMagnitude false bits = ofMagnitude false bits')
    (negative : Bool) : ofMagnitude negative bits = ofMagnitude negative bits' := by
  have hbits (n : Nat) : (ofMagnitude false n).toBits.toNat = min n infinityBits := by
    have hmin := toBits_ofMagnitude false (Nat.min_le_right n infinityBits)
    simpa [ofMagnitude] using hmin
  have hmin : min bits infinityBits = min bits' infinityBits := by
    rw [← hbits, h, hbits]
  rw [ofMagnitude, hmin, ofMagnitude]

/-! ## Mantissa and exponent -/

/-- A mantissa of at most fifty-three bits, which are all used unless the exponent is the least. -/
structure Canonical (m : Nat) (e : Int) : Prop where
  least : -1074 ≤ e
  most : e ≤ 971
  fits : m < 2 * fieldBit
  full : e = -1074 ∨ fieldBit ≤ m

/-- The bits of the magnitude `m · 2 ^ e`. -/
def magnitudeBits (m : Nat) (e : Int) : Nat :=
  (e + 1074).toNat * fieldBit + m

theorem Canonical.magnitudeBits_lt {m : Nat} {e : Int} (h : Canonical m e) :
    magnitudeBits m e < infinityBits := by
  obtain ⟨hleast, hmost, hfits, -⟩ := h
  unfold magnitudeBits infinityBits fieldBit at *
  omega

theorem eq_ofMagnitude_of_reading {x : Float} {negative : Bool} {m : Nat} {e : Int}
    (h : reading x = .finite negative m e) :
    Canonical m e ∧ x = ofMagnitude negative (magnitudeBits m e) := by
  have hlt := x.toBits.toNat_lt
  -- Whatever the field of the exponent, mantissa and exponent make up the bits below the sign.
  obtain ⟨hcanonical, hsign, hbits⟩ : Canonical m e ∧
      negative = (x.toBits.toNat / signBit % 2 == 1) ∧ x.toBits.toNat % signBit = magnitudeBits m e := by
    unfold reading Reading.ofBits at h
    dsimp only at h
    split at h
    · split at h <;> cases h
    · split at h
      · cases h
        refine ⟨⟨by omega, by omega, ?_, .inl rfl⟩, rfl, ?_⟩
        · unfold fieldBit at *
          omega
        · unfold magnitudeBits fieldBit signBit at *
          omega
      · cases h
        refine ⟨⟨by omega, by omega, ?_, ?_⟩, rfl, ?_⟩
        · unfold fieldBit at *
          omega
        · unfold fieldBit at *
          omega
        · unfold magnitudeBits fieldBit signBit at *
          omega
  refine ⟨hcanonical, Float.toBits_inj.mp (UInt64.toNat_inj.mp ?_)⟩
  rw [toBits_ofMagnitude negative hcanonical.magnitudeBits_lt.le, ← hbits, hsign]
  unfold signBit
  split
  all_goals
    rename_i hs
    rw [beq_iff_eq] at hs
    omega

theorem reading_of_isFinite {x : Float} (h : x.isFinite = true) :
    ∃ negative m e, reading x = .finite negative m e := by
  rw [isFinite_iff] at h
  unfold reading Reading.ofBits
  dsimp only
  rw [if_neg h]
  split
  · exact ⟨_, _, _, rfl⟩
  · exact ⟨_, _, _, rfl⟩

end Engraver.Double
