import Mathlib.Tactic.IntervalCases
import Arbor.Decimal.Number

/-!
# The characters of numbers

The text of a number is made of few characters: digits, a point, a minus, and the letters
of the two words for values that no numeral has. What matters elsewhere is that none of
them is a bracket or a comma, so that a number takes the place of an argument without
any effect on the brackets and commas around it.
-/
namespace Arbor

/-- The characters that occur in texts of numbers. -/
def numberCharacters : List Char :=
  ['0', '1', '2', '3', '4', '5', '6', '7', '8', '9', '.', '-', 'i', 'n', 'f', 'N', 'a']

/-- All digits occur in numbers. -/
theorem mem_numberCharacters_of_isDigit {c : Char} (digit : c.isDigit = true) :
    c ∈ numberCharacters := by
  obtain ⟨low, high⟩ := Char.isDigit_iff_toNat.mp digit
  have least : '0'.toNat = 48 := rfl
  have greatest : '9'.toNat = 57 := rfl
  rw [least] at low
  rw [greatest] at high
  rw [← Char.ofNat_toNat c]
  generalize c.toNat = code at low high
  interval_cases code <;> decide

/-- The digits of an integer are characters of numbers. -/
theorem mem_numberCharacters_of_mem_toDigits {value : Nat} {c : Char}
    (among : c ∈ Nat.toDigits 10 value) : c ∈ numberCharacters :=
  mem_numberCharacters_of_isDigit (Nat.isDigit_of_mem_toDigits (by decide) (by decide) among)

namespace Numeral

/-- The digits of a fraction are characters of numbers, also the zeros filled in. -/
theorem mem_numberCharacters_of_mem_fractionDigits {part places : Nat} {c : Char}
    (among : c ∈ fractionDigits part places) : c ∈ numberCharacters := by
  have kept : c ∈ List.replicate (places - (Nat.toDigits 10 part).length) '0' ++
      Nat.toDigits 10 part := by
    have suffix := List.dropWhile_suffix (l := (List.replicate
      (places - (Nat.toDigits 10 part).length) '0' ++ Nat.toDigits 10 part).reverse) (· == '0')
    exact List.mem_reverse.mp (suffix.subset (List.mem_reverse.mp among))
  rcases List.mem_append.mp kept with zero | digit
  · rw [List.eq_of_mem_replicate zero]
    decide
  · exact mem_numberCharacters_of_mem_toDigits digit

/-- A numeral is written in characters of numbers. -/
theorem mem_numberCharacters_of_mem_positional {numeral : Numeral} {c : Char}
    (among : c ∈ numeral.positional) : c ∈ numberCharacters := by
  unfold positional at among
  split at among
  · rcases List.mem_append.mp among with digit | zero
    · exact mem_numberCharacters_of_mem_toDigits digit
    · rw [List.eq_of_mem_replicate zero]
      decide
  · dsimp only at among
    split at among
    · exact mem_numberCharacters_of_mem_toDigits among
    · rcases List.mem_append.mp among with digit | fraction
      · exact mem_numberCharacters_of_mem_toDigits digit
      · rcases List.mem_cons.mp fraction with rfl | digit
        · decide
        · exact mem_numberCharacters_of_mem_fractionDigits digit

end Numeral

/-- The text of a magnitude is a numeral or one of two words. -/
theorem mem_numberCharacters_of_mem_formatMagnitude {pattern : Nat} {c : Char}
    (among : c ∈ formatMagnitude pattern) : c ∈ numberCharacters := by
  unfold formatMagnitude at among
  split at among
  · exact Numeral.mem_numberCharacters_of_mem_positional among
  · split at among
    · exact (by simp [numberCharacters] : ∀ c ∈ "inf".toList, c ∈ numberCharacters) c among
    · exact (by simp [numberCharacters] : ∀ c ∈ "NaN".toList, c ∈ numberCharacters) c among

/-- A number is written in characters of numbers. -/
theorem mem_numberCharacters_of_mem_formatNumber {value : Float} {c : Char}
    (among : c ∈ formatNumber value) : c ∈ numberCharacters := by
  unfold formatNumber at among
  dsimp only at among
  split at among
  · rcases List.mem_cons.mp among with rfl | magnitude
    · decide
    · exact mem_numberCharacters_of_mem_formatMagnitude magnitude
  · exact mem_numberCharacters_of_mem_formatMagnitude among

end Arbor
