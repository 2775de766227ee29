import Arbor.Text.Basic
import Arbor.Decimal.BinaryFormat
import Arbor.Random.Draw

/-!
# Functions of expressions

Every function takes one number or two. Names are compared with case. `rnd` draws a
number between its arguments and is the only function that takes words from the
generator; when its arguments leave no room it gives the first one without drawing.

The remainder `mod` has the sign of the dividend and is exact, so it is computed on the
integers that the two operands are multiples of. `min` and `max` give the other
operand for one that is not a number.
-/
namespace Arbor

/-- The functions of one number. -/
inductive UnaryFunction where
  | sin
  | cos
  | tan
  | asin
  | acos
  | atan
  | sqrt
  | abs
  | floor
  | ceil
  | round
  | exp
  | ln
  deriving DecidableEq, Repr

/-- The functions of two numbers. -/
inductive BinaryFunction where
  | rnd
  | min
  | max
  | pow
  | mod
  | atan2
  deriving DecidableEq, Repr

/-- The functions that an expression may call. -/
inductive Function where
  | unary (function : UnaryFunction)
  | binary (function : BinaryFunction)
  deriving DecidableEq, Repr

/-- Whether the sign bit of a double is set. -/
def isNegativeDouble (value : Float) : Bool :=
  value.toBits >>> 63 == 1

/-- The remainder of the division of two magnitudes that are finite patterns, the second
one not zero: both are counted in units of the smaller shift. -/
def remainderPattern (dividend divisor : Nat) : Nat :=
  let format := BinaryFormat.double
  let (low, high) := (format.shift dividend, format.shift divisor)
  let unit := min low high
  let remainder := (format.significand dividend * Nat.pow 2 (low - unit)) %
    (format.significand divisor * Nat.pow 2 (high - unit))
  format.nearest (remainder * Nat.pow 2 unit) (Nat.pow 2 format.leastPlace)

/-- The exact remainder of a division that is rounded toward zero. -/
def remainder (dividend divisor : Float) : Float :=
  if dividend.isNaN || divisor.isNaN || dividend.isInf || divisor == 0 then
    Float.ofBits (BinaryFormat.notANumber .double).toUInt64
  else if divisor.isInf then
    dividend
  else
    let magnitude := Float.ofBits
      (remainderPattern dividend.abs.toBits.toNat divisor.abs.toBits.toNat).toUInt64
    if isNegativeDouble dividend then -magnitude else magnitude

/-- The smaller of two numbers. Of two equal ones, and of two zeros of either sign, it is the
second; beside one that is not a number it is the other. -/
def minimum (a b : Float) : Float :=
  if a < b || b.isNaN then a else b

/-- The larger of two numbers. Of two equal ones, and of two zeros of either sign, it is the
second; beside one that is not a number it is the other. -/
def maximum (a b : Float) : Float :=
  if b < a || b.isNaN then a else b

namespace UnaryFunction

/-- The value of a function of one number. -/
def apply : UnaryFunction → Float → Float
  | .sin => Float.sin
  | .cos => Float.cos
  | .tan => Float.tan
  | .asin => Float.asin
  | .acos => Float.acos
  | .atan => Float.atan
  | .sqrt => Float.sqrt
  | .abs => Float.abs
  | .floor => Float.floor
  | .ceil => Float.ceil
  | .round => Float.round
  | .exp => Float.exp
  | .ln => Float.log

end UnaryFunction

namespace BinaryFunction

/-- The value of a function of two numbers. -/
def apply : BinaryFunction → Float → Float → Draw Float
  | .rnd, a, b => if a < b then Draw.double a b else pure a
  | .min, a, b => pure (minimum a b)
  | .max, a, b => pure (maximum a b)
  | .pow, a, b => pure (Float.pow a b)
  | .mod, a, b => pure (remainder a b)
  | .atan2, a, b => pure (Float.atan2 a b)

end BinaryFunction

namespace Function

/-- The functions with their names. -/
def all : List (String × Function) :=
  [("rnd", .binary .rnd), ("sin", .unary .sin), ("cos", .unary .cos), ("tan", .unary .tan),
   ("asin", .unary .asin), ("acos", .unary .acos), ("atan", .unary .atan),
   ("sqrt", .unary .sqrt), ("abs", .unary .abs), ("floor", .unary .floor),
   ("ceil", .unary .ceil), ("round", .unary .round), ("exp", .unary .exp), ("ln", .unary .ln),
   ("min", .binary .min), ("max", .binary .max), ("pow", .binary .pow), ("mod", .binary .mod),
   ("atan2", .binary .atan2)]

/-- The function with this name. -/
def named? (name : Text) : Option Function :=
  all.findSome? fun entry => if entry.1.toList = name then some entry.2 else none

/-- How many numbers a function takes. -/
def arity : Function → Nat
  | .unary _ => 1
  | .binary _ => 2

/-- Applies a function to exactly as many numbers as it takes. -/
def applyTo? : Function → List Float → Option (Draw Float)
  | .unary function, [a] => some (pure (function.apply a))
  | .binary function, [a, b] => some (function.apply a b)
  | _, _ => none

/-- A function can be applied exactly when the number of values is its arity. -/
theorem isSome_applyTo? (function : Function) (values : List Float) :
    (function.applyTo? values).isSome ↔ values.length = function.arity := by
  match function, values with
  | .unary _, [] => simp [applyTo?, arity]
  | .unary _, [_] => simp [applyTo?, arity]
  | .unary _, _ :: _ :: _ => simp [applyTo?, arity]
  | .binary _, [] => simp [applyTo?, arity]
  | .binary _, [_] => simp [applyTo?, arity]
  | .binary _, [_, _] => simp [applyTo?, arity]
  | .binary _, _ :: _ :: _ :: _ => simp [applyTo?, arity]

end Function

end Arbor
