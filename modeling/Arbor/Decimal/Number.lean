import Arbor.Decimal.Shortest

/-!
# Numbers and their texts

The library computes expressions in double and geometry in single precision. A
number is written with the fewest digits that read back as the same double, without
an exponent, without a point when it is integral; zero keeps its sign. What is read
is rounded once, directly from the decimal numeral to the precision asked for.
-/
namespace Arbor

/-- Reads a whole text as a double. -/
def readDouble? (text : Text) : Option Float :=
  (Numeral.read? .double text).map fun bits => Float.ofBits bits.toUInt64

/-- Reads a whole text as a single. -/
def readSingle? (text : Text) : Option Float32 :=
  (Numeral.read? .single text).map fun bits => Float32.ofBits bits.toUInt32

/-- The value of an unsigned numeral, if it is finite in double precision. -/
def Numeral.finiteDouble? (numeral : Numeral) : Option Float :=
  let pattern := numeral.pattern .double
  if pattern < BinaryFormat.infinity .double then some (Float.ofBits pattern.toUInt64) else none

/-- The text of a nonnegative bit pattern. -/
def formatMagnitude (pattern : Nat) : Text :=
  if pattern < BinaryFormat.infinity .double then
    (Numeral.shortest .double pattern).positional
  else if pattern = BinaryFormat.infinity .double then
    "inf".toList
  else
    "NaN".toList

/-- The text of a number: a minus for the sign bit, which a value that is not a number
does not show, then the magnitude. -/
def formatNumber (value : Float) : Text :=
  let bits := value.toBits.toNat
  let weight := BinaryFormat.signWeight .double
  let magnitude := bits % weight
  if weight ≤ bits ∧ magnitude ≤ BinaryFormat.infinity .double then
    '-' :: formatMagnitude magnitude
  else
    formatMagnitude magnitude

end Arbor
