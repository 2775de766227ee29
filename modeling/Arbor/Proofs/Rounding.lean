import Mathlib.Tactic.Ring
import Arbor.Decimal.Shortest

/-!
# Rounding to a binary format

The nearest pattern depends on a ratio alone and not on how it is written as a fraction, and
the nearest pattern of the value of a finite pattern is this pattern. So a numeral may be
written with more zeros or fewer, and the shortest numeral of a value reads back as it, also
where none of the candidates with few digits does.

A ratio has a finite nearest pattern as long as it is below the middle between the largest finite
value and the next power of two. The middle itself is rounded to the power, whose significand is
even.
-/
namespace Arbor

namespace BinaryFormat

variable {format : BinaryFormat}

/-- A common factor plays no part in rounding a ratio to an integer. -/
theorem roundHalfEven_mul {factor : Nat} (positive : 0 < factor) (numerator denominator : Nat) :
    roundHalfEven (factor * numerator) (factor * denominator) =
      roundHalfEven numerator denominator := by
  have above (remainder : Nat) :
      factor * denominator < 2 * (factor * remainder) ↔ denominator < 2 * remainder := by
    rw [Nat.mul_left_comm]
    exact Nat.mul_lt_mul_left positive
  have halfway (remainder : Nat) :
      factor * denominator = 2 * (factor * remainder) ↔ denominator = 2 * remainder := by
    rw [Nat.mul_left_comm]
    exact Nat.mul_right_inj (Nat.ne_of_gt positive)
  simp only [roundHalfEven, Nat.mul_div_mul_left _ _ positive, Nat.mul_mod_mul_left, above, halfway]

/-- An integer is rounded to itself. -/
theorem roundHalfEven_mul_self {denominator : Nat} (positive : 0 < denominator) (quotient : Nat) :
    roundHalfEven (quotient * denominator) denominator = quotient := by
  simp only [roundHalfEven, Nat.mul_div_cancel _ positive, Nat.mul_mod_left]
  rw [if_neg]
  omega

/-- Less than one half is rounded to zero. -/
theorem roundHalfEven_eq_zero {numerator denominator : Nat} (small : 2 * numerator < denominator) :
    roundHalfEven numerator denominator = 0 := by
  have less : numerator < denominator := by omega
  simp only [roundHalfEven, Nat.div_eq_of_lt less, Nat.mod_eq_of_lt less]
  rw [if_neg]
  omega

/-- What is below the middle behind an integer is rounded to this integer or a lower one. -/
theorem roundHalfEven_le {numerator denominator bound : Nat}
    (below : 2 * numerator < (2 * bound + 1) * denominator) :
    roundHalfEven numerator denominator ≤ bound := by
  have positive : 0 < denominator := Nat.pos_of_mul_pos_left (Nat.zero_lt_of_lt below)
  have parts := Nat.div_add_mod' numerator denominator
  rw [Nat.add_mul (2 * bound), Nat.mul_assoc, Nat.one_mul] at below
  have quotient : numerator / denominator ≤ bound := by
    rw [← Nat.lt_add_one_iff, Nat.div_lt_iff_lt_mul positive, Nat.add_one_mul]
    omega
  unfold roundHalfEven
  dsimp only
  split
  · next up =>
    -- The middle is not reached, so only a lower integer is rounded up.
    by_contra beyond
    have same : numerator / denominator = bound := by omega
    rw [same] at parts
    omega
  · exact quotient

/-- What reaches the middle in front of an even integer is rounded to this integer or a higher
one. -/
theorem le_roundHalfEven {numerator denominator bound : Nat} (even : bound % 2 = 0)
    (positive : 0 < denominator)
    (reached : 2 * (bound * denominator) ≤ 2 * numerator + denominator) :
    bound ≤ roundHalfEven numerator denominator := by
  have parts := Nat.div_add_mod' numerator denominator
  have quotient : bound ≤ numerator / denominator + 1 := by
    by_contra less
    have room : numerator / denominator + 2 ≤ bound := by omega
    have scaled := Nat.mul_le_mul_right denominator room
    have rest := Nat.mod_lt numerator positive
    rw [Nat.add_mul] at scaled
    omega
  unfold roundHalfEven
  dsimp only
  split
  · exact quotient
  · next down =>
    by_contra less
    have same : bound = numerator / denominator + 1 := by omega
    rw [same, Nat.add_mul (numerator / denominator), Nat.one_mul] at reached
    omega

/-- The nearest pattern depends on the ratio alone. -/
theorem nearest_mul {factor : Nat} (positive : 0 < factor) (numerator denominator : Nat) :
    format.nearest (factor * numerator) (factor * denominator) =
      format.nearest numerator denominator := by
  simp only [nearest, Nat.mul_assoc, Nat.mul_div_mul_left _ _ positive, roundHalfEven_mul positive]

/-- A ratio below half the least unit is nearest to zero. -/
theorem nearest_eq_zero (precise : 0 < format.precision) {numerator denominator : Nat}
    (small : 2 * (numerator * 2 ^ format.leastPlace) < denominator) :
    format.nearest numerator denominator = 0 := by
  have less : numerator * 2 ^ format.leastPlace < denominator := by omega
  have unshifted : Nat.log2 0 + 1 - format.precision = 0 := by
    rw [Nat.log2_zero]
    omega
  simp only [nearest, Nat.pow_eq, Nat.div_eq_of_lt less, unshifted, Nat.pow_zero, Nat.mul_one,
    roundHalfEven_eq_zero small, Nat.zero_mul, Nat.add_zero, Nat.min_zero]

/-- A pattern is made of its shift and its significand. -/
theorem shift_add_significand (pattern : Nat) :
    format.shift pattern * format.binade + format.significand pattern = pattern := by
  have whole : pattern / format.binade * format.binade ≤ pattern :=
    Nat.div_mul_le_self pattern format.binade
  have fewer : format.shift pattern * format.binade ≤ pattern / format.binade * format.binade :=
    Nat.mul_le_mul_right _ (Nat.sub_le _ 1)
  simp only [significand]
  omega

/-- A significand has no more than its bits, and it has all of them if it is shifted. -/
theorem significand_bounds (precise : 0 < format.precision) (pattern : Nat) :
    format.significand pattern < 2 ^ format.precision ∧
      (format.shift pattern ≠ 0 → 2 ^ (format.precision - 1) ≤ format.significand pattern) := by
  have half : format.binade = 2 ^ (format.precision - 1) := Nat.pow_eq
  have twice : 2 ^ format.precision = 2 * format.binade := by
    rw [half, ← Nat.pow_succ', Nat.succ_eq_add_one, Nat.sub_add_cancel precise]
  have parts := format.shift_add_significand pattern
  have divided := Nat.div_add_mod' pattern format.binade
  have remainder : pattern % format.binade < format.binade := by
    apply Nat.mod_lt
    rw [half]
    exact Nat.two_pow_pos _
  rw [twice, ← half]
  cases counted : pattern / format.binade with
  | zero =>
    have unshifted : format.shift pattern = 0 := by simp only [shift, counted]
    rw [unshifted] at parts ⊢
    rw [counted] at divided
    omega
  | succ shift =>
    have shifted : format.shift pattern = shift := by simp only [BinaryFormat.shift, counted]; rfl
    rw [shifted] at parts ⊢
    rw [counted, Nat.add_one_mul] at divided
    omega

/-- The value of a finite pattern is nearest to this pattern, in whatever units it is counted. -/
theorem nearest_value (precise : 0 < format.precision) {pattern : Nat}
    (finite : pattern < format.infinity) {unit : Nat} (positive : 0 < unit) :
    format.nearest (format.significand pattern * 2 ^ format.shift pattern * unit)
      (2 ^ format.leastPlace * unit) = pattern := by
  have scaled : format.significand pattern * 2 ^ format.shift pattern * unit *
      2 ^ format.leastPlace = format.significand pattern * 2 ^ format.shift pattern *
        (2 ^ format.leastPlace * unit) := by ring
  have rounded : format.significand pattern * 2 ^ format.shift pattern *
      (2 ^ format.leastPlace * unit) = format.significand pattern *
        (2 ^ format.leastPlace * unit * 2 ^ format.shift pattern) := by ring
  have place : 0 < 2 ^ format.leastPlace * unit := Nat.mul_pos (Nat.two_pow_pos _) positive
  have places : 0 < 2 ^ format.leastPlace * unit * 2 ^ format.shift pattern :=
    Nat.mul_pos place (Nat.two_pow_pos _)
  have shift : (format.significand pattern * 2 ^ format.shift pattern).log2 + 1 -
      format.precision = format.shift pattern := by
    obtain ⟨above, below⟩ := significand_bounds precise pattern
    by_cases unshifted : format.shift pattern = 0
    · rw [unshifted, Nat.pow_zero, Nat.mul_one]
      by_cases zero : format.significand pattern = 0
      · rw [zero, Nat.log2_zero]
        omega
      · have := (Nat.log2_lt zero).mpr above
        omega
    · have low := below unshifted
      have some : format.significand pattern ≠ 0 :=
        Nat.ne_of_gt (Nat.lt_of_lt_of_le (Nat.two_pow_pos _) low)
      have length : (format.significand pattern * 2 ^ format.shift pattern).log2 =
          format.precision - 1 + format.shift pattern := by
        rw [Nat.log2_eq_iff (Nat.mul_ne_zero some (Nat.ne_of_gt (Nat.two_pow_pos _)))]
        constructor
        · rw [Nat.pow_add]
          exact Nat.mul_le_mul_right _ low
        · rw [Nat.add_right_comm, Nat.sub_add_cancel precise, Nat.pow_add]
          exact Nat.mul_lt_mul_of_pos_right above (Nat.two_pow_pos _)
      omega
  simp only [nearest, Nat.pow_eq, scaled, Nat.mul_div_cancel _ place, shift]
  rw [rounded, roundHalfEven_mul_self places, shift_add_significand]
  exact Nat.min_eq_right (Nat.le_of_lt finite)

/-- The shift of a quotient is the least one that leaves no more than the bits of a significand. -/
theorem shift_bounds (precise : 0 < format.precision) (quotient : Nat) :
    quotient < 2 * format.binade * 2 ^ (quotient.log2 + 1 - format.precision) ∧
      (quotient.log2 + 1 - format.precision ≠ 0 →
        format.binade * 2 ^ (quotient.log2 + 1 - format.precision) ≤ quotient) := by
  have half : format.binade = 2 ^ (format.precision - 1) := Nat.pow_eq
  have twice : 2 * format.binade = 2 ^ format.precision := by
    rw [half, ← Nat.pow_succ', Nat.succ_eq_add_one, Nat.sub_add_cancel precise]
  constructor
  · rw [twice, ← Nat.pow_add]
    exact Nat.lt_of_lt_of_le Nat.lt_log2_self (Nat.pow_le_pow_right (by decide) (by omega))
  · intro shifted
    have some : quotient ≠ 0 := by
      rintro rfl
      rw [Nat.log2_zero] at shifted
      omega
    rw [half, ← Nat.pow_add, show format.precision - 1 + (quotient.log2 + 1 - format.precision) =
      quotient.log2 by omega]
    exact Nat.log2_self_le some

/-- A ratio is nearest to a finite pattern if and only if it is below the middle between the largest
finite value and the next power of two. -/
theorem nearest_lt_infinity_iff (precise : 1 < format.precision) {top : Nat}
    (largest : format.infinity = (top + 2) * format.binade) {numerator denominator : Nat}
    (positive : 0 < denominator) :
    format.nearest numerator denominator < format.infinity ↔
      2 * (numerator * 2 ^ format.leastPlace) <
        (4 * format.binade - 1) * (denominator * 2 ^ top) := by
  have some : 0 < format.binade := Nat.two_pow_pos _
  have even : format.binade % 2 = 0 := by
    rw [binade, Nat.pow_eq, show format.precision - 1 = format.precision - 2 + 1 by omega,
      Nat.pow_succ, Nat.mul_mod_left]
  rw [nearest]
  simp only [Nat.pow_eq]
  generalize numerator * 2 ^ format.leastPlace = scaled
  obtain ⟨above, below⟩ := shift_bounds (Nat.lt_of_succ_lt precise) (scaled / denominator)
  generalize (scaled / denominator).log2 + 1 - format.precision = shift at above below ⊢
  rw [Nat.div_lt_iff_lt_mul positive] at above
  rw [Nat.le_div_iff_mul_le positive] at below
  rw [largest, Nat.add_mul]
  generalize format.binade = binade at some even above below
  -- The quotient in units of its shift: all that is compared are products with the same unit.
  have unit : 0 < denominator * 2 ^ shift := Nat.mul_pos positive (Nat.two_pow_pos _)
  have above : scaled < 2 * (binade * (denominator * 2 ^ shift)) := by
    rwa [Nat.mul_assoc _ _ denominator, Nat.mul_comm _ denominator, Nat.mul_assoc] at above
  have below : shift ≠ 0 → binade * (denominator * 2 ^ shift) ≤ scaled := by
    rwa [Nat.mul_assoc _ _ denominator, Nat.mul_comm _ denominator] at below
  have middle (size : Nat) : (4 * binade - 1) * size = 4 * (binade * size) - size := by
    rw [Nat.sub_mul, Nat.mul_assoc, Nat.one_mul]
  have wide (size : Nat) : size ≤ binade * size := Nat.le_mul_of_pos_left size some
  have twice {less more : Nat} (apart : less < more) :
      2 * (denominator * 2 ^ less) ≤ denominator * 2 ^ more := by
    rw [Nat.mul_left_comm, ← Nat.pow_succ']
    exact Nat.mul_le_mul_left denominator (Nat.pow_le_pow_right (by decide) apart)
  rcases Nat.lt_trichotomy shift top with lower | rfl | higher
  · -- The significand may be rounded up to the next power of two, but this one is finite.
    have rounded : roundHalfEven scaled (denominator * 2 ^ shift) ≤ 2 * binade := by
      apply roundHalfEven_le
      rw [Nat.add_mul, Nat.mul_assoc, Nat.mul_assoc, Nat.one_mul]
      omega
    have shifts := Nat.mul_le_mul_right binade lower
    have units := Nat.mul_le_mul_left binade (twice lower)
    rw [Nat.succ_mul] at shifts
    rw [Nat.mul_left_comm] at units
    have size := wide (denominator * 2 ^ top)
    rw [middle]
    omega
  · constructor
    · intro finite
      by_contra reached
      rw [middle] at reached
      have rounded : 2 * binade ≤ roundHalfEven scaled (denominator * 2 ^ shift) := by
        apply le_roundHalfEven (by omega) unit
        rw [Nat.mul_assoc]
        omega
      omega
    · intro small
      have rounded : roundHalfEven scaled (denominator * 2 ^ shift) ≤ 2 * binade - 1 := by
        apply roundHalfEven_le
        rwa [show 2 * (2 * binade - 1) + 1 = 4 * binade - 1 by omega]
      omega
  · -- Even the least significand with this shift is beyond the finite values.
    have reached := below (Nat.ne_of_gt (Nat.zero_lt_of_lt higher))
    have rounded : binade ≤ roundHalfEven scaled (denominator * 2 ^ shift) := by
      apply le_roundHalfEven even unit
      omega
    have shifts := Nat.mul_le_mul_right binade higher
    have units := Nat.mul_le_mul_left binade (twice higher)
    rw [Nat.succ_mul] at shifts
    rw [Nat.mul_left_comm] at units
    rw [middle]
    omega

end BinaryFormat

namespace Numeral

/-- A numeral with digits behind the point is the nearest pattern of their ratio, also where it
is settled by its magnitude. -/
theorem pattern_of_places {format : BinaryFormat} (precise : 0 < format.precision)
    (fine : 0 < format.leastPlace) (digits places : Nat) :
    (⟨digits, -(places : Int)⟩ : Numeral).pattern format = format.nearest digits (10 ^ places) := by
  by_cases zero : digits = 0
  · subst zero
    rw [BinaryFormat.nearest_eq_zero precise (by simp)]
    simp [pattern]
  cases places with
  | zero =>
    have small : ¬format.leastPlace ≤ 0 := by omega
    simp [pattern, zero, small]
  | succ places =>
    have exponent : -((places + 1 : Nat) : Int) = .negSucc places := rfl
    simp only [pattern, exponent, zero, Nat.pow_eq, if_false]
    split
    · next vanishing =>
      symm
      apply BinaryFormat.nearest_eq_zero precise
      have few : digits < 2 ^ (digits.log2 + 1) := Nat.lt_log2_self
      calc 2 * (digits * 2 ^ format.leastPlace)
        _ < 2 * (2 ^ (digits.log2 + 1) * 2 ^ format.leastPlace) := by
          apply Nat.mul_lt_mul_of_pos_left _ (by decide)
          exact Nat.mul_lt_mul_of_pos_right few (Nat.two_pow_pos _)
        _ = 2 ^ (format.leastPlace + digits.log2) * 4 := by ring
        _ ≤ 2 ^ places * 4 :=
          Nat.mul_le_mul_right 4 (Nat.pow_le_pow_right (by decide) vanishing)
        _ ≤ 10 ^ places * 10 :=
          Nat.mul_le_mul (Nat.pow_le_pow_left (by decide) places) (by decide)
        _ = 10 ^ (places + 1) := (Nat.pow_succ ..).symm
    · rfl

/-- Zeros at the end of the digits behind the point play no part. -/
theorem pattern_mul_ten_pow {format : BinaryFormat} (precise : 0 < format.precision)
    (fine : 0 < format.leastPlace) (digits places zeros : Nat) :
    (⟨digits * 10 ^ zeros, -((places + zeros : Nat) : Int)⟩ : Numeral).pattern format =
      (⟨digits, -(places : Int)⟩ : Numeral).pattern format := by
  rw [pattern_of_places precise fine, pattern_of_places precise fine, Nat.pow_add,
    Nat.mul_comm digits, Nat.mul_comm (10 ^ places)]
  exact BinaryFormat.nearest_mul (Nat.pow_pos (by decide)) digits (10 ^ places)

/-- The numeral with all digits of a finite pattern reads back. -/
theorem pattern_exact {format : BinaryFormat} (precise : 0 < format.precision)
    (fine : 0 < format.leastPlace) {value : Nat} (finite : value < format.infinity) :
    (exact format value).pattern format = value := by
  rw [exact, pattern_of_places precise fine, show (10 : Nat) = 2 * 5 from rfl, Nat.mul_pow]
  simp only [Nat.pow_eq]
  exact BinaryFormat.nearest_value precise finite (Nat.pow_pos (by decide))

/-- The shortest numeral of a finite value reads back as this value. -/
theorem pattern_shortest {format : BinaryFormat} (precise : 0 < format.precision)
    (fine : 0 < format.leastPlace) {value : Nat} (finite : value < format.infinity) :
    (shortest format value).pattern format = value := by
  unfold shortest
  split
  · next zero =>
    rw [zero]
    simp [pattern]
  · cases found : (List.range 17).findSome? fun count => withDigits? format value (count + 1) with
    | none => exact pattern_exact precise fine finite
    | some numeral =>
      obtain ⟨count, _, accepted⟩ := List.exists_of_findSome?_eq_some found
      have same := List.find?_some accepted
      simpa using same

end Numeral

end Arbor
