/-!
# Vectors and angles in single precision

Components are singles, and every operation rounds once per component in the order in
which it is written. The numbers of the circle are the singles nearest to them.
-/
namespace Arbor

/-- A point of a texture. -/
structure Vec2 where
  x : Float32
  y : Float32
  deriving Inhabited

/-- A point or a direction in space. -/
structure Vec3 where
  x : Float32
  y : Float32
  z : Float32
  deriving Inhabited

/-- A column of a matrix. -/
structure Vec4 where
  x : Float32
  y : Float32
  z : Float32
  w : Float32
  deriving Inhabited

namespace Vec2

/-- The sum of the products of the components. -/
def dot (a b : Vec2) : Float32 :=
  a.x * b.x + a.y * b.y

end Vec2

namespace Vec3

/-- The origin. -/
def zero : Vec3 := ⟨0, 0, 0⟩

/-- The direction of the second axis. -/
def unitY : Vec3 := ⟨0, 1, 0⟩

/-- A direction taken `factor` times. -/
def scale (direction : Vec3) (factor : Float32) : Vec3 :=
  ⟨direction.x * factor, direction.y * factor, direction.z * factor⟩

end Vec3

namespace Vec4

/-- The sum of two columns. -/
def add (a b : Vec4) : Vec4 :=
  ⟨a.x + b.x, a.y + b.y, a.z + b.z, a.w + b.w⟩

/-- A column taken `factor` times. -/
def scale (column : Vec4) (factor : Float32) : Vec4 :=
  ⟨column.x * factor, column.y * factor, column.z * factor, column.w * factor⟩

/-- The first three components. -/
def toVec3 (column : Vec4) : Vec3 :=
  ⟨column.x, column.y, column.z⟩

end Vec4

namespace Angle

/-- Half a turn. -/
def halfTurn : Float32 := Float32.ofBits 0x40490FDB

/-- A whole turn. -/
def fullTurn : Float32 := Float32.ofBits 0x40C90FDB

/-- A quarter of a turn. -/
def quarterTurn : Float32 := Float32.ofBits 0x3FC90FDB

end Angle

end Arbor
