import Arbor.Text.Basic
import Arbor.Decimal.BinaryFormat

/-!
# Decimal numerals

A numeral is a number of units of a power of ten. It is written as digits with at
most one point, which may stand first or last but not alone, and an exponent part
after the letter e of either case. `scan` reads the longest numeral at the start of a
text and reports an exponent letter that no digits follow, because a text with such
a letter is no numeral and neither is its beginning.

`pattern` is the value of a numeral in a binary format, correctly rounded. Numerals
whose magnitude alone decides the answer are settled before any power is computed.
`read?` is the reading of a whole text with its sign and its three words for values
that no numeral has.
-/
namespace Arbor

/-- The number `digits` times ten to the power `exponent`. -/
structure Numeral where
  /-- The digits as one integer. -/
  digits : Nat
  /-- The power of ten of the last digit. -/
  exponent : Int
  deriving DecidableEq, Repr, Inhabited

namespace Numeral

/-- The pattern of the value nearest to a numeral. From the least place on a power of
ten exceeds every finite value, and so do its inverses fall below half the least unit. -/
def pattern (format : BinaryFormat) (numeral : Numeral) : Nat :=
  if numeral.digits = 0 then
    0
  else
    match numeral.exponent with
    | .ofNat power =>
      if format.leastPlace ≤ power then
        format.infinity
      else
        format.nearest (numeral.digits * Nat.pow 10 power) 1
    | .negSucc places =>
      if format.leastPlace + numeral.digits.log2 ≤ places then
        0
      else
        format.nearest numeral.digits (Nat.pow 10 (places + 1))

/-- The integer that a row of digits writes. -/
def valueOfDigits (digits : Text) : Nat :=
  digits.foldl (fun value c => 10 * value + (c.toNat - '0'.toNat)) 0

/-- What stands at the start of a text. -/
inductive Scan where
  /-- No numeral. -/
  | missing
  /-- An exponent letter directly behind the digits and no digits behind it. -/
  | danglingExponent
  /-- A numeral and the text behind it. -/
  | found (numeral : Numeral) (rest : Text)

/-- Takes a sign off the text: whether it was a minus, and what follows. -/
def splitSign : Text → Bool × Text
  | '-' :: rest => (true, rest)
  | '+' :: rest => (false, rest)
  | text => (false, text)

/-- Ends a numeral of which `places` digits stood behind the point: reads the exponent
part, if there is one. -/
def scanExponent (digits places : Nat) (text : Text) : Scan :=
  let plain := Scan.found ⟨digits, -(places : Int)⟩ text
  match text with
  | letter :: rest =>
    if letter = 'e' ∨ letter = 'E' then
      let (negative, rest) := splitSign rest
      let exponentDigits := rest.takeWhile Char.isDigit
      if exponentDigits.isEmpty then
        .danglingExponent
      else
        let magnitude : Int := valueOfDigits exponentDigits
        let exponent := if negative then -magnitude else magnitude
        .found ⟨digits, exponent - places⟩ (rest.dropWhile Char.isDigit)
    else
      plain
  | [] => plain

/-- Reads the longest unsigned numeral at the start of a text. -/
def scan (text : Text) : Scan :=
  let whole := text.takeWhile Char.isDigit
  match text.dropWhile Char.isDigit with
  | '.' :: rest =>
    let fraction := rest.takeWhile Char.isDigit
    if whole.isEmpty && fraction.isEmpty then
      .missing
    else
      scanExponent (valueOfDigits (whole ++ fraction)) fraction.length (rest.dropWhile Char.isDigit)
  | rest => if whole.isEmpty then .missing else scanExponent (valueOfDigits whole) 0 rest

/-- The magnitudes that are words, compared in lower case. -/
def wordPattern? (format : BinaryFormat) (text : Text) : Option Nat :=
  let word := text.map Char.toLower
  if word = "inf".toList ∨ word = "infinity".toList then
    some format.infinity
  else if word = "nan".toList then
    some format.notANumber
  else
    none

/-- The magnitude that a whole unsigned text writes. -/
def magnitude? (format : BinaryFormat) (text : Text) : Option Nat :=
  match scan text with
  | .found numeral [] => some (numeral.pattern format)
  | _ => wordPattern? format text

/-- The bit pattern of the number that a whole text writes, with an optional sign in
front; nothing else may stand beside it, also no blank. -/
def read? (format : BinaryFormat) (text : Text) : Option Nat :=
  let (negative, unsigned) := splitSign text
  (magnitude? format unsigned).map fun magnitude =>
    if negative then format.signWeight + magnitude else magnitude

end Numeral

end Arbor
