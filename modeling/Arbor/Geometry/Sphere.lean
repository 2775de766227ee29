import Arbor.Geometry.Vector

/-!
# Spheres

A point of a sphere around the origin is given by its longitude and its latitude in
radians; latitude zero is the lower pole, and longitude zero a quarter turn away from
the first axis.
-/
namespace Arbor.Sphere

/-- The point of the sphere with this radius. -/
def point (longitude latitude radius : Float32) : Vec3 :=
  let turned := longitude + Angle.quarterTurn
  ⟨radius * turned.cos * latitude.sin, -radius * latitude.cos,
    radius * turned.sin * latitude.sin⟩

end Arbor.Sphere
