import Mathlib
import Arbor.Proofs.DoubleBits

/-!
# Bits of singles

A single is kept as its bits, which are unpacked when it is looked at and packed again when it is
made from bits. Packing forgets at most the payload of what is not a number, so whether a single is
finite is read off the exponent of its bits.
-/
namespace Arbor

open Float.Model (Format UnpackedFloat)
open Float.Model.UnpackedFloat

/-- What a word of 32 bits unpacks to is finite if and only if its exponent is not the largest. -/
theorem isFinite_unpack (bits : BitVec 32) :
    (unpack .binary32 bits).isFinite = true ↔ @unpackExponent .binary32 bits ≠ -1#8 := by
  unfold unpack
  dsimp only
  split
  · next full =>
    split <;> exact iff_of_false nofun (absurd full)
  · next below =>
    split
    · split <;> exact iff_of_true rfl below
    · exact iff_of_true rfl below

/-- A finite number with an exponent that fits is packed with an exponent that is not the largest. -/
theorem unpackExponent_pack_ne {sign : Sign} {mantissa : Nat} {exponent : Int}
    (positive : 0 < mantissa) (fits : exponent + 150 < 255) :
    @unpackExponent .binary32 (pack .binary32 (.finite sign mantissa exponent positive)) ≠ -1#8 := by
  have bias : Format.binary32.exponentBias = 127 := rfl
  unfold pack
  dsimp only
  rw [bias, if_neg (by omega)]
  split
  · rw [unpackExponent_packComponents]
    intro full
    have largest := congrArg BitVec.toNat full
    rw [BitVec.toNat_ofNat] at largest
    have : (-1#8).toNat = 255 := rfl
    omega
  · rw [unpackExponent_packComponents]
    decide

/-- Packing a word again keeps it finite or not. -/
theorem unpackExponent_pack_unpack_iff (bits : BitVec 32) :
    @unpackExponent .binary32 (pack .binary32 (unpack .binary32 bits)) ≠ -1#8 ↔
      @unpackExponent .binary32 bits ≠ -1#8 := by
  unfold unpack
  dsimp only
  split
  · next full =>
    refine iff_of_false ?_ (absurd full)
    split
    · simp [pack, packedInfinity]
    · simp [pack, packedNaN]
  · next below =>
    have short := (@unpackExponent .binary32 bits).isLt
    have less : (@unpackExponent .binary32 bits).toNat ≠ 255 := fun full =>
      below (BitVec.eq_of_toNat_eq full)
    have bias : Format.binary32.exponentBias = 127 := rfl
    split
    · next zero =>
      split
      · refine iff_of_true ?_ below
        rw [pack, packedZero, unpackExponent_packComponents]
        decide
      · exact iff_of_true (unpackExponent_pack_ne _ (by simp [zero, bias])) below
    · refine iff_of_true (unpackExponent_pack_ne _ ?_) below
      rw [bias]
      simp only at short less ⊢
      omega

/-- A single is finite if and only if the exponent of its bits is not the largest. -/
theorem isFinite_ofBits_iff (bits : UInt32) :
    (Float32.ofBits bits).isFinite = true ↔ bits.toNat / 2 ^ 23 % 2 ^ 8 ≠ 255 := by
  have exponent : (@unpackExponent .binary32 bits.toBitVec).toNat =
      bits.toNat / 2 ^ 23 % 2 ^ 8 :=
    @toNat_unpackExponent .binary32 bits.toBitVec
  calc (Float32.ofBits bits).isFinite = true
    _ ↔ (unpack .binary32 (pack .binary32 (unpack .binary32 bits.toBitVec))).isFinite = true :=
      Iff.rfl
    _ ↔ @unpackExponent .binary32 bits.toBitVec ≠ -1#8 := by
      rw [isFinite_unpack, unpackExponent_pack_unpack_iff]
    _ ↔ bits.toNat / 2 ^ 23 % 2 ^ 8 ≠ 255 := by
      rw [← exponent]
      exact not_congr ⟨congrArg BitVec.toNat, fun full => BitVec.eq_of_toNat_eq full⟩

end Arbor
