import Arbor.Geometry.Matrix
import Arbor.Geometry.Sphere
import Arbor.Plant.Parameters
import Arbor.Plant.Quad
import Arbor.Plant.Trunk

/-!
# Joints

A joint is a sphere that rounds off the place where trunks meet. It is written as
separate quads, from longitude to longitude and in each from the lower pole to the
upper one. With less than two segments in either direction there is no joint, and of
each number of segments there is one quad less.
-/
namespace Arbor

/-- The shape of a joint. -/
structure Joint where
  thickness : Float32
  xSegments : UInt32
  ySegments : UInt32

namespace Joint

/-- The number of parameters. -/
def arity : Nat := 3

/-- Reads a joint from its parameters. -/
def ofParameters (p : List Float32) : Joint where
  thickness := Parameters.get p 0
  xSegments := Parameters.segments (Parameters.get p 1)
  ySegments := Parameters.segments (Parameters.get p 2)

/-- The number of quads around. -/
def columns (joint : Joint) : Nat :=
  joint.xSegments.toNat - 1

/-- The number of quads between the poles. -/
def rows (joint : Joint) : Nat :=
  joint.ySegments.toNat - 1

/-- The corner at a longitude and a latitude, both counted in steps. -/
def vertex (joint : Joint) (transform : Matrix) (x y : Nat) : Vertex :=
  let longitudeStep := Angle.fullTurn / Parameters.ofCount joint.columns
  let latitudeStep := Angle.halfTurn / Parameters.ofCount joint.rows
  ⟨transform.applyPoint (Sphere.point (Parameters.ofCount x * longitudeStep)
      (Parameters.ofCount y * latitudeStep) joint.thickness),
    ⟨Parameters.ofCount x / Parameters.ofCount joint.columns,
      Parameters.ofCount y / Parameters.ofCount joint.rows⟩⟩

/-- The corners of a quad. -/
def quad (joint : Joint) (transform : Matrix) (x y : Nat) : List Vertex :=
  [joint.vertex transform x y, joint.vertex transform x (y + 1),
    joint.vertex transform (x + 1) (y + 1), joint.vertex transform (x + 1) y]

/-- The quads column by column. -/
def quads (joint : Joint) (transform : Matrix) : List (List Vertex) :=
  (List.range joint.columns).flatMap fun x =>
    (List.range joint.rows).map (joint.quad transform x)

/-- The geometry of a joint. -/
def patch (joint : Joint) (transform : Matrix) : Patch :=
  if joint.xSegments < 2 ∨ joint.ySegments < 2 then
    .empty
  else
    .ofQuads barkGroup (joint.quads transform)

end Joint

end Arbor
