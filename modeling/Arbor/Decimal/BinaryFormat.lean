/-!
# Binary floating point formats and the nearest value of a ratio

A format has a number of significand bits and a least unit, a power of two of which
every finite value is a multiple. The bit patterns of the nonnegative values are
counted upwards from zero with the values themselves, the pattern of infinity
coming last: so a pattern is its shift times half the significand range plus its
significand, and rounding a ratio is one division, whose carry out of the significand
lands in the shift by itself.

Halves go to the even neighbour. All arithmetic is on natural numbers and exact.
-/
namespace Arbor

/-- A binary interchange format. -/
structure BinaryFormat where
  /-- The number of significand bits, the leading one included. -/
  precision : Nat
  /-- Every finite value is a multiple of two to the power minus this. -/
  leastPlace : Nat
  /-- The bit pattern of positive infinity. -/
  infinity : Nat

namespace BinaryFormat

/-- The format of 64 bits. -/
def double : BinaryFormat := ⟨53, 1074, 0x7FF0000000000000⟩

/-- The format of 32 bits. -/
def single : BinaryFormat := ⟨24, 149, 0x7F800000⟩

/-- The number of patterns with one exponent, which is the least significand of a normal
number. -/
def binade (format : BinaryFormat) : Nat :=
  Nat.pow 2 (format.precision - 1)

/-- The weight of the sign bit, which stands above all patterns of magnitudes. -/
def signWeight (format : BinaryFormat) : Nat :=
  format.infinity + format.binade

/-- The pattern of the quiet value that is not a number. -/
def notANumber (format : BinaryFormat) : Nat :=
  format.infinity + format.binade / 2

/-- The quotient rounded to the nearest integer, halves to the even one. -/
def roundHalfEven (numerator denominator : Nat) : Nat :=
  let quotient := numerator / denominator
  let remainder := numerator % denominator
  if denominator < 2 * remainder ∨ (denominator = 2 * remainder ∧ quotient % 2 = 1) then
    quotient + 1
  else
    quotient

/-- The pattern of the value nearest to a ratio, infinity from the first ratio on that
rounds past every finite value. -/
def nearest (format : BinaryFormat) (numerator denominator : Nat) : Nat :=
  let scaled := numerator * Nat.pow 2 format.leastPlace
  let shift := (scaled / denominator).log2 + 1 - format.precision
  min format.infinity
    (shift * format.binade + roundHalfEven scaled (denominator * Nat.pow 2 shift))

/-- The power of two between the significand of a pattern and the least unit. -/
def shift (format : BinaryFormat) (pattern : Nat) : Nat :=
  pattern / format.binade - 1

/-- The significand of a pattern, counted in units of its shift. -/
def significand (format : BinaryFormat) (pattern : Nat) : Nat :=
  pattern - format.shift pattern * format.binade

/-- The value of a finite pattern as a numerator and a denominator. -/
def ratio (format : BinaryFormat) (pattern : Nat) : Nat × Nat :=
  let shift := format.shift pattern
  let significand := format.significand pattern
  if format.leastPlace ≤ shift then
    (significand * Nat.pow 2 (shift - format.leastPlace), 1)
  else
    (significand, Nat.pow 2 (format.leastPlace - shift))

end BinaryFormat

end Arbor
