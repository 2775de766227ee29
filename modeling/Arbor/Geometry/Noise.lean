import Arbor.Geometry.Vector

/-!
# Gradient noise

Every point of the integer lattice has a gradient of length one in one of eight
directions, which a hash of its coordinates picks. The noise at a point blends the
four slopes around it and is scaled to lie between zero and one; at lattice points it
is one half. Lattice coordinates are words of 32 bits and wrap around.
-/
namespace Arbor.Noise

/-- The hash of a lattice point. -/
def hash (x y : Int32) : UInt32 :=
  let mixed := (x.toUInt32 * 0x8DA6B343) ^^^ (y.toUInt32 * 0xD8163841)
  let folded := (mixed ^^^ (mixed >>> 13)) * 0x5BD1E995
  folded ^^^ (folded >>> 15)

/-- The gradient of a lattice point. -/
def gradient (x y : Int32) : Vec2 :=
  let angle := (hash x y &&& 7).toFloat32 * (Angle.halfTurn / 4)
  ⟨angle.cos, angle.sin⟩

/-- The weight of the far side, level at both ends. -/
def fade (t : Float32) : Float32 :=
  t * t * t * (t * (t * 6 - 15) + 10)

/-- The value between two others. -/
def blend (near far weight : Float32) : Float32 :=
  near + (far - near) * weight

/-- The value brought between zero and one. One that is not a number stays. -/
def clamp (value : Float32) : Float32 :=
  if value < 0 then 0 else if 1 < value then 1 else value

/-- The square root of two. -/
def rootTwo : Float32 := Float32.ofBits 0x3FB504F3

/-- The noise at a point. -/
def value (x y : Float32) : Float32 :=
  let (cellX, cellY) := (x.floor, y.floor)
  let (insideX, insideY) := (x - cellX, y - cellY)
  let (latticeX, latticeY) := (cellX.toInt32, cellY.toInt32)
  let slope (stepX stepY : Int32) (shiftX shiftY : Float32) : Float32 :=
    (gradient (latticeX + stepX) (latticeY + stepY)).dot ⟨insideX - shiftX, insideY - shiftY⟩
  let (weightX, weightY) := (fade insideX, fade insideY)
  let bottom := blend (slope 0 0 0 0) (slope 1 0 1 0) weightX
  let top := blend (slope 0 1 0 1) (slope 1 1 1 1) weightX
  clamp (0.5 + 0.5 * rootTwo * blend bottom top weightY)

end Arbor.Noise
