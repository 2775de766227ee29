import Arbor.Geometry.Matrix
import Arbor.Geometry.Noise
import Arbor.Mesh.Basic
import Arbor.Plant.Parameters

/-!
# Trunks

A trunk is a tapered cylinder whose surface noise makes uneven. Its vertices form a
grid of rings, from the lower to the upper one, each ring closed by a vertex that stands
in the place of its first one. Every cell of the grid is two triangles. Without
segments in either direction there is no trunk.
-/
namespace Arbor

/-- The triangle group of bark. -/
def barkGroup : Text := "treeTrunk".toList

/-- The shape of a trunk. -/
structure Trunk where
  bottomThickness : Float32
  topThickness : Float32
  length : Float32
  /-- The number of segments around. -/
  xSegments : UInt32
  /-- The number of segments along. -/
  ySegments : UInt32
  noiseZoom : Float32
  noiseStrength : Float32

namespace Trunk

/-- The number of parameters. -/
def arity : Nat := 7

/-- Where the length stands among the parameters. -/
def lengthPosition : Nat := 2

/-- Reads a trunk from its parameters. -/
def ofParameters (p : List Float32) : Trunk where
  bottomThickness := Parameters.get p 0
  topThickness := Parameters.get p 1
  length := Parameters.get p lengthPosition
  xSegments := Parameters.segments (Parameters.get p 3)
  ySegments := Parameters.segments (Parameters.get p 4)
  noiseZoom := Parameters.get p 5
  noiseStrength := Parameters.get p 6

/-- The radius of a ring before noise. -/
def radius (trunk : Trunk) (ring : Nat) : Float32 :=
  let factor := Parameters.ofCount ring / trunk.ySegments.toFloat32
  trunk.bottomThickness + (trunk.topThickness - trunk.bottomThickness) * factor

/-- The radius at a vertex. A radius of zero stays, so that tips stay closed. -/
def unevenRadius (trunk : Trunk) (ring place : Nat) : Float32 :=
  let radius := trunk.radius ring
  if radius == 0 then
    radius
  else
    radius + Noise.value (Parameters.ofCount place * trunk.noiseZoom)
      (Parameters.ofCount ring * trunk.noiseZoom) * trunk.noiseStrength

/-- The vertex at a place of a ring. -/
def vertex (trunk : Trunk) (transform : Matrix) (ring place : Nat) : Vertex :=
  let xStep := Angle.fullTurn / trunk.xSegments.toFloat32
  let yStep := trunk.length / trunk.ySegments.toFloat32
  let angle := xStep * Parameters.ofCount place
  let radius := trunk.unevenRadius ring place
  let height := Parameters.ofCount ring * yStep
  ⟨transform.applyPoint ⟨angle.sin * radius, height, angle.cos * radius⟩,
    ⟨Parameters.ofCount place * xStep, height⟩⟩

/-- The vertices ring by ring. -/
def vertices (trunk : Trunk) (transform : Matrix) : List Vertex :=
  (List.range (trunk.ySegments.toNat + 1)).flatMap fun ring =>
    (List.range (trunk.xSegments.toNat + 1)).map (trunk.vertex transform ring)

/-- The two triangles of a cell of a grid with `stride` vertices in a ring. -/
def cell (stride ring place : Nat) : List (Triangle Nat) :=
  let a := ring * stride + place
  let b := a + 1
  let c := a + stride
  let d := c + 1
  [⟨d, c, a⟩, ⟨a, b, d⟩]

/-- The triangles of a grid of cells, ring by ring. -/
def grid (columns rings : Nat) : List (Triangle Nat) :=
  (List.range rings).flatMap fun ring =>
    (List.range columns).flatMap (cell (columns + 1) ring)

/-- The geometry of a trunk. -/
def patch (trunk : Trunk) (transform : Matrix) : Patch :=
  if trunk.xSegments = 0 ∨ trunk.ySegments = 0 then
    .empty
  else
    ⟨trunk.vertices transform, barkGroup, grid trunk.xSegments.toNat trunk.ySegments.toNat⟩

end Trunk

end Arbor
