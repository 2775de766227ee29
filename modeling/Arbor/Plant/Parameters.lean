/-!
# Parameters of parts

Parts read their parameters by position. One that is missing reads as zero. A number
of segments is the integral part of a parameter, and none at all if the parameter is
below one or not finite.
-/
namespace Arbor.Parameters

/-- The parameter at a position. -/
def get (parameters : List Float32) (position : Nat) : Float32 :=
  parameters.getD position 0

/-- A number of segments. -/
def segments (value : Float32) : UInt32 :=
  if value.isFinite && 1 ≤ value then value.toUInt32 else 0

/-- A count as a single. -/
def ofCount (count : Nat) : Float32 :=
  count.toUInt32.toFloat32

end Arbor.Parameters
