import Arbor.Geometry.Vector

/-!
# Transforms

A transform is a matrix of four columns that is applied to column vectors, so that a
product applies its right factor first. The sums of a product are formed from the
first column to the last, those of a transformed point from the first column outwards
to the translation.
-/
namespace Arbor

/-- A matrix by its columns. -/
structure Matrix where
  x : Vec4
  y : Vec4
  z : Vec4
  w : Vec4
  deriving Inhabited

namespace Matrix

/-- The transform that leaves everything in its place. -/
def identity : Matrix :=
  ⟨⟨1, 0, 0, 0⟩, ⟨0, 1, 0, 0⟩, ⟨0, 0, 1, 0⟩, ⟨0, 0, 0, 1⟩⟩

/-- A matrix applied to a column. -/
def applyColumn (a : Matrix) (column : Vec4) : Vec4 :=
  (((a.x.scale column.x).add (a.y.scale column.y)).add (a.z.scale column.z)).add
    (a.w.scale column.w)

/-- The product of two matrices. -/
def mul (a b : Matrix) : Matrix :=
  ⟨a.applyColumn b.x, a.applyColumn b.y, a.applyColumn b.z, a.applyColumn b.w⟩

/-- A direction, which no translation moves. -/
def applyDirection (a : Matrix) (direction : Vec3) : Vec3 :=
  ((a.z.scale direction.z).add ((a.y.scale direction.y).add (a.x.scale direction.x))).toVec3

/-- A point. -/
def applyPoint (a : Matrix) (point : Vec3) : Vec3 :=
  (a.w.add ((a.z.scale point.z).add ((a.y.scale point.y).add (a.x.scale point.x)))).toVec3

/-- The turn around the first axis. -/
def rotationX (angle : Float32) : Matrix :=
  let (s, c) := (angle.sin, angle.cos)
  ⟨⟨1, 0, 0, 0⟩, ⟨0, c, s, 0⟩, ⟨0, -s, c, 0⟩, ⟨0, 0, 0, 1⟩⟩

/-- The turn around the second axis. -/
def rotationY (angle : Float32) : Matrix :=
  let (s, c) := (angle.sin, angle.cos)
  ⟨⟨c, 0, -s, 0⟩, ⟨0, 1, 0, 0⟩, ⟨s, 0, c, 0⟩, ⟨0, 0, 0, 1⟩⟩

/-- The turn around the third axis. -/
def rotationZ (angle : Float32) : Matrix :=
  let (s, c) := (angle.sin, angle.cos)
  ⟨⟨c, s, 0, 0⟩, ⟨-s, c, 0, 0⟩, ⟨0, 0, 1, 0⟩, ⟨0, 0, 0, 1⟩⟩

/-- The move along a vector. -/
def translation (offset : Vec3) : Matrix :=
  ⟨⟨1, 0, 0, 0⟩, ⟨0, 1, 0, 0⟩, ⟨0, 0, 1, 0⟩, ⟨offset.x, offset.y, offset.z, 1⟩⟩

end Matrix

end Arbor
