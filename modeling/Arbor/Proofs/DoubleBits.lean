import Mathlib
import Arbor.Proofs.Decimals

/-!
# Bits of doubles

A finite double is given by its bits: a sign, an exponent that is not the largest one, and a
mantissa. Taking it apart and putting it together again gives the same bits, and so it does
with another sign, which is what a minus in front of a number does.
-/
namespace Arbor

open Float.Model (Format UnpackedFloat)
open Float.Model.UnpackedFloat

/-- Doubles with the same bits are the same. -/
theorem eq_of_toBits_eq {first second : Float} (same : first.toBits = second.toBits) :
    first = second := by
  obtain ⟨bits, _⟩ := first
  obtain ⟨other, _⟩ := second
  cases same
  rfl

/-- The exponent of a word by its value, in every format. -/
theorem toNat_unpackExponent {format : Format} (bits : BitVec format.numBits) :
    (unpackExponent bits).toNat =
      bits.toNat / 2 ^ format.mantissaBitsWithoutImplicit % 2 ^ format.exponentBits := by
  have some := format.he
  have width : format.mantissaBitsWithoutImplicit + format.exponentBits - 1 -
      format.mantissaBitsWithoutImplicit + 1 = format.exponentBits := by omega
  rw [unpackExponent, BitVec.toNat_cast, BitVec.extractLsb, BitVec.extractLsb'_toNat,
    Nat.shiftRight_eq_div_pow, width]

/-- The mantissa of a word by its value. -/
theorem toNat_unpackMantissa (bits : BitVec 64) :
    (@unpackMantissa .binary64 bits).toNat = bits.toNat % 2 ^ 52 := by
  rw [unpackMantissa, BitVec.toNat_cast, BitVec.extractLsb, BitVec.extractLsb'_toNat]
  rfl

/-- The value of a word by its parts. -/
theorem toNat_packComponents (sign : Sign) (exponent : BitVec 11) (mantissa : BitVec 52) :
    (packComponents .binary64 sign exponent mantissa).toNat =
      sign.toBitVec.toNat * 2 ^ 63 + exponent.toNat * 2 ^ 52 + mantissa.toNat := by
  have upper : (sign.toBitVec ++ exponent).toNat =
      sign.toBitVec.toNat * 2 ^ 11 + exponent.toNat := by
    rw [BitVec.toNat_append, ← Nat.shiftLeft_add_eq_or_of_lt exponent.isLt, Nat.shiftLeft_eq]
  have whole : (sign.toBitVec ++ exponent ++ mantissa).toNat =
      (sign.toBitVec ++ exponent).toNat * 2 ^ 52 + mantissa.toNat := by
    rw [BitVec.toNat_append, ← Nat.shiftLeft_add_eq_or_of_lt mantissa.isLt, Nat.shiftLeft_eq]
  change (sign.toBitVec ++ exponent ++ mantissa).toNat = _
  rw [whole, upper]
  omega

/-- A finite number is taken apart into what has a sign, and with each sign it is put together
from this sign, the exponent and the mantissa. -/
theorem exists_unpack {bits : BitVec 64} (finite : @unpackExponent .binary64 bits ≠ -1#11) :
    ∃ number : Sign → UnpackedFloat,
      unpack .binary64 bits = number (.ofBitVec (@unpackSign .binary64 bits)) ∧
        (∀ sign, (number sign).neg = number (-sign)) ∧
          ∀ sign, pack .binary64 (number sign) =
            packComponents .binary64 sign (@unpackExponent .binary64 bits)
              (@unpackMantissa .binary64 bits) := by
  have exponent : (@unpackExponent .binary64 bits).toNat < 2 ^ 11 :=
    (@unpackExponent .binary64 bits).isLt
  have mantissa : (@unpackMantissa .binary64 bits).toNat < 2 ^ 52 :=
    (@unpackMantissa .binary64 bits).isLt
  have width : Format.binary64.mantissaBits = 53 := rfl
  have bias : Format.binary64.exponentBias = 1023 := rfl
  by_cases subnormal : @unpackExponent .binary64 bits = 0#11
  · by_cases zero : @unpackMantissa .binary64 bits = 0#52
    · refine ⟨.zero, ?_, fun _ => rfl, ?_⟩
      · simp [unpack, subnormal, zero]
      · intro sign
        rw [subnormal, zero]
        rfl
    · have positive : 0 < (@unpackMantissa .binary64 bits).toNat := by
        apply Nat.pos_of_ne_zero
        intro none
        exact zero (BitVec.eq_of_toNat_eq none)
      have short := (Nat.log2_lt (Nat.ne_of_gt positive)).mpr mantissa
      refine ⟨fun sign => .finite sign (@unpackMantissa .binary64 bits).toNat (-1074) positive,
        ?_, fun _ => rfl, ?_⟩
      · simp [unpack, subnormal, zero, bias]
      · intro sign
        simp only [pack, subnormal]
        rw [if_neg (by decide), if_neg (by omega), BitVec.ofNat_toNat, BitVec.setWidth_eq]
  · -- The leading bit of the mantissa is not stored.
    have leading : (1#1 ++ @unpackMantissa .binary64 bits).toNat =
        2 ^ 52 + (@unpackMantissa .binary64 bits).toNat := by
      rw [BitVec.toNat_append, ← Nat.shiftLeft_add_eq_or_of_lt mantissa]
      rfl
    have length : (1#1 ++ @unpackMantissa .binary64 bits).toNat.log2 = 52 := by
      rw [leading, Nat.log2_eq_iff (by omega)]
      omega
    have below : (@unpackExponent .binary64 bits).toNat ≠ 2047 := by
      intro full
      apply finite
      exact BitVec.eq_of_toNat_eq full
    have positive : 0 < (1#1 ++ @unpackMantissa .binary64 bits).toNat := by omega
    refine ⟨fun sign => .finite sign (1#1 ++ @unpackMantissa .binary64 bits).toNat
      ((@unpackExponent .binary64 bits).toNat - 1075) positive, ?_, fun _ => rfl, ?_⟩
    · unfold unpack
      rw [if_neg finite, if_neg subnormal]
      rfl
    · intro sign
      have biased : ((@unpackExponent .binary64 bits).toNat - 1075 + (1023 : Nat) +
          (52 : Nat) : Int).toNat = (@unpackExponent .binary64 bits).toNat := by omega
      have stored : BitVec.ofNat 52 (1#1 ++ @unpackMantissa .binary64 bits).toNat =
          @unpackMantissa .binary64 bits := by
        apply BitVec.eq_of_toNat_eq
        rw [BitVec.toNat_ofNat, leading]
        omega
      simp only [pack, bias, biased, length, width]
      rw [if_neg (by omega), if_pos trivial, BitVec.ofNat_toNat, BitVec.setWidth_eq, stored]

/-- A magnitude below infinity is taken apart into what has a sign. Without a minus it is put
together from its own bits, and with a minus the bit of the sign is added to them. -/
theorem exists_unpack_of_lt {bits : BitVec 64}
    (finite : bits.toNat < BinaryFormat.infinity .double) :
    ∃ number : Sign → UnpackedFloat,
      unpack .binary64 bits = number .positive ∧ (number .positive).neg = number .negative ∧
        (pack .binary64 (number .positive)).toNat = bits.toNat ∧
          (pack .binary64 (number .negative)).toNat =
            BinaryFormat.signWeight .double + bits.toNat := by
  have infinity : BinaryFormat.infinity .double = 2047 * 2 ^ 52 := by decide
  have weight : BinaryFormat.signWeight .double = 2 ^ 63 := by decide
  have exponent : (@unpackExponent .binary64 bits).toNat = bits.toNat / 2 ^ 52 % 2 ^ 11 :=
    @toNat_unpackExponent .binary64 bits
  have mantissa := toNat_unpackMantissa bits
  have ordinary : @unpackExponent .binary64 bits ≠ -1#11 := by
    intro full
    rw [full, show (-1#11).toNat = 2047 from rfl] at exponent
    omega
  have unsigned : @unpackSign .binary64 bits = 0#1 := by
    apply BitVec.eq_of_toNat_eq
    rw [unpackSign, BitVec.toNat_cast, BitVec.extractLsb, BitVec.extractLsb'_toNat,
      Nat.shiftRight_eq_div_pow]
    change bits.toNat / 2 ^ 63 % 2 = 0
    omega
  obtain ⟨number, apart, negated, together⟩ := exists_unpack ordinary
  refine ⟨number, ?_, negated .positive, ?_, ?_⟩
  · rw [apart, unsigned]
    rfl
  · rw [together, toNat_packComponents, exponent, mantissa, show Sign.positive.toBitVec = 0#1 from rfl,
      BitVec.toNat_ofNat]
    omega
  · rw [together, toNat_packComponents, exponent, mantissa, show Sign.negative.toBitVec = 1#1 from rfl,
      BitVec.toNat_ofNat, weight]
    omega

/-- The double with the bits of a magnitude below infinity has these bits. -/
theorem toBits_ofBits {bits : UInt64} (finite : bits.toNat < BinaryFormat.infinity .double) :
    (Float.ofBits bits).toBits = bits := by
  obtain ⟨number, apart, _, together, _⟩ := @exists_unpack_of_lt bits.toBitVec finite
  apply UInt64.toNat_inj.mp
  calc (Float.ofBits bits).toBits.toNat
    _ = (pack .binary64 (unpack .binary64 bits.toBitVec)).toNat := rfl
    _ = (pack .binary64 (number .positive)).toNat := by rw [apart]
    _ = bits.toNat := together

/-- A minus in front of a magnitude below infinity sets the bit of the sign. -/
theorem toNat_toBits_neg {bits : UInt64} (finite : bits.toNat < BinaryFormat.infinity .double) :
    (-Float.ofBits bits).toBits.toNat = BinaryFormat.signWeight .double + bits.toNat := by
  obtain ⟨number, apart, negated, _, together⟩ := @exists_unpack_of_lt bits.toBitVec finite
  have same := toBits_ofBits finite
  calc (-Float.ofBits bits).toBits.toNat
    _ = (pack .binary64 (unpack .binary64 (Float.ofBits bits).toBits.toBitVec).neg).toNat := rfl
    _ = (pack .binary64 (number .negative)).toNat := by rw [same, apart, negated]
    _ = BinaryFormat.signWeight .double + bits.toNat := together

end Arbor
