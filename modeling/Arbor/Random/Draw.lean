import Arbor.Random.Generator

/-!
# Drawing numbers

A draw is a computation that takes words from a generator and may have no value. A
number between two bounds is made from a word by scaling it to the width of the
range; a result that rounding or the word's remainder carries past the upper bound is
refused and the next word is tried.

There is no number between bounds whose distance is not finite, and such a draw has
no value. A word is refused with a chance of at most about one half, so the number of
words tried for one draw is bounded far above what a stream shows.
-/
namespace Arbor

/-- A computation that takes words from a generator, or stops without a value. -/
abbrev Draw := StateT Generator Option

namespace Draw

/-- No value. -/
def impossible {α : Type} : Draw α :=
  fun _ => none

/-- The next word. -/
def word : Draw UInt32 :=
  fun generator => some generator.next

/-- The next two words as one, the low one first. -/
def word64 : Draw UInt64 :=
  fun generator => some generator.next64

/-- The double in `[0, 1)` with the upper 52 bits of a word behind the point. -/
def unitDouble (word : UInt64) : Float :=
  let fraction := word >>> 12
  Float.ofBits (0x3FF0000000000000 ||| fraction) - 1

/-- The single in `[0, 1)` with the upper 23 bits of a word behind the point. -/
def unitSingle (word : UInt32) : Float32 :=
  let fraction := word >>> 9
  Float32.ofBits (0x3F800000 ||| fraction) - 1

/-- Repeats an attempt until it gives a value, at most `count` times. -/
def untilAccepted {α : Type} (attempt : Draw (Option α)) : Nat → Draw α
  | 0 => impossible
  | count + 1 => do
    match ← attempt with
    | some value => pure value
    | none => untilAccepted attempt count

/-- How often one draw tries. -/
def attempts : Nat := 1024

/-- A double in `[low, high)`, for `low < high`. -/
def double (low high : Float) : Draw Float :=
  let width := high - low
  if width.isFinite then
    untilAccepted (do
      let value := unitDouble (← word64) * width + low
      pure (if value < high then some value else none)) attempts
  else
    impossible

/-- A single in `[low, high)`, for `low < high`. -/
def single (low high : Float32) : Draw Float32 :=
  let width := high - low
  if width.isFinite then
    untilAccepted (do
      let value := unitSingle (← word) * width + low
      pure (if value < high then some value else none)) attempts
  else
    impossible

/-- The number of binary places in front of the leading one of a word. -/
def leadingZeros (word : UInt32) : Nat :=
  if word = 0 then 32 else 31 - word.toNat.log2

/-- An integer in `[low, high)`, for `low < high`: the upper half of a product with the
number of values, refused where its lower half would favour some values. -/
def integer (low high : UInt32) : Draw UInt32 :=
  let count := high - low
  let zone := (count <<< (leadingZeros count).toUInt32) - 1
  untilAccepted (do
    let product := (← word).toUInt64 * count.toUInt64
    pure (if product.toUInt32 ≤ zone then some (low + (product >>> 32).toUInt32) else none)) attempts

end Draw

end Arbor
