import Arbor.Decimal.Numeral

/-!
# The shortest numeral of a value

Of all numerals that read back as a given value, `shortest` takes one with the
fewest digits, and of those the nearest to the value. Only the two neighbours of the
value on a decimal grid can qualify, so for each number of digits there are two
candidates, and a candidate is accepted exactly when it reads back. A value halfway
between its neighbours takes the upper one.

`positional` writes a numeral without an exponent part and without zeros at the end
of its fraction.
-/
namespace Arbor.Numeral

/-- The number of decimal digits of an integer, one for zero. -/
def digitCount (value : Nat) : Nat :=
  (Nat.toDigits 10 value).length

/-- The power of ten of the leading digit of a positive ratio. -/
def leadingPlace (numerator denominator : Nat) : Int :=
  if denominator ≤ numerator then
    (digitCount (numerator / denominator) : Int) - 1
  else
    let places := digitCount (denominator / numerator)
    if denominator ≤ numerator * Nat.pow 10 (places - 1) then
      1 - (places : Int)
    else
      -(places : Int)

/-- The ratio counted in units of a power of ten. -/
def inUnits (numerator denominator : Nat) : Int → Nat × Nat
  | .ofNat power => (numerator, denominator * Nat.pow 10 power)
  | .negSucc places => (numerator * Nat.pow 10 (places + 1), denominator)

/-- The two neighbours of a ratio among the multiples of a power of ten, the nearer one
first and the upper one of two that are equally near. -/
def neighbours (numerator denominator : Nat) (exponent : Int) : List Numeral :=
  let (units, unit) := inUnits numerator denominator exponent
  let lower := units / unit
  if 2 * (units % unit) < unit then
    [⟨lower, exponent⟩, ⟨lower + 1, exponent⟩]
  else
    [⟨lower + 1, exponent⟩, ⟨lower, exponent⟩]

/-- The numeral with all digits of a finite pattern. -/
def exact (format : BinaryFormat) (pattern : Nat) : Numeral :=
  ⟨format.significand pattern * Nat.pow 2 (format.shift pattern) *
      Nat.pow 5 format.leastPlace,
    -(format.leastPlace : Int)⟩

/-- The nearest numeral with at most `count` digits, if one of those reads back. -/
def withDigits? (format : BinaryFormat) (pattern count : Nat) : Option Numeral :=
  let (numerator, denominator) := format.ratio pattern
  (neighbours numerator denominator (leadingPlace numerator denominator + 1 - count)).find?
    fun candidate => candidate.pattern format == pattern

/-- The shortest numeral that reads back as a finite pattern. Seventeen digits tell
apart all values of both formats. -/
def shortest (format : BinaryFormat) (pattern : Nat) : Numeral :=
  if pattern = 0 then
    ⟨0, 0⟩
  else
    ((List.range 17).findSome? fun count => withDigits? format pattern (count + 1)).getD
      (exact format pattern)

/-- The digits behind the point of `part` units, `places` of which make one: filled up
with zeros in front, without zeros at the end. -/
def fractionDigits (part places : Nat) : Text :=
  let digits := Nat.toDigits 10 part
  let filled := List.replicate (places - digits.length) '0' ++ digits
  (filled.reverse.dropWhile (· == '0')).reverse

/-- A numeral written out without an exponent part. -/
def positional (numeral : Numeral) : Text :=
  match numeral.exponent with
  | .ofNat power =>
    Nat.toDigits 10 numeral.digits ++ List.replicate power '0'
  | .negSucc places =>
    let unit := Nat.pow 10 (places + 1)
    let whole := Nat.toDigits 10 (numeral.digits / unit)
    let part := numeral.digits % unit
    if part = 0 then
      whole
    else
      whole ++ '.' :: fractionDigits part (places + 1)

end Arbor.Numeral
