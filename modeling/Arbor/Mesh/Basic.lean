import Arbor.Geometry.Vector
import Arbor.Text.Basic

/-!
# Meshes

A mesh is a row of vertices with texture coordinates, and triangles that name their
corners by vertex index. Triangles belong to named groups, which stand in the order
in which they were first used; each group keeps the corners of its triangles one after
the other. Indices are words of 32 bits.

A patch is a piece of a mesh whose corners are counted from its own first vertex.
Placing a patch appends its vertices and moves its corners behind those that were
there before.
-/
namespace Arbor

/-- The triangles of one name. -/
structure TriangleGroup where
  name : Text
  /-- Three corners for each triangle. -/
  indices : Array UInt32
  deriving DecidableEq, Repr

/-- A triangle by its corners. -/
structure Triangle (α : Type) where
  a : α
  b : α
  c : α
  deriving DecidableEq, Repr

/-- Vertices and triangles. -/
structure Mesh where
  vertices : Array Vec3
  uvs : Array Vec2
  groups : List TriangleGroup
  /-- Material handles, which go with the groups by position. -/
  materials : List UInt8

/-- A vertex with its texture coordinates. -/
structure Vertex where
  position : Vec3
  uv : Vec2

/-- A piece of a mesh with all its triangles in one group. -/
structure Patch where
  vertices : List Vertex
  group : Text
  triangles : List (Triangle Nat)

namespace Patch

/-- A patch with nothing in it. -/
def empty : Patch :=
  ⟨[], [], []⟩

end Patch

namespace Mesh

/-- The mesh with nothing in it. -/
def empty : Mesh :=
  ⟨#[], #[], [], []⟩

instance : Inhabited Mesh :=
  ⟨empty⟩

/-- The index of the next vertex. -/
def nextIndex (mesh : Mesh) : UInt32 :=
  mesh.vertices.size.toUInt32

/-- Appends a vertex. -/
def addVertex (mesh : Mesh) (vertex : Vertex) : Mesh :=
  { mesh with
    vertices := mesh.vertices.push vertex.position
    uvs := mesh.uvs.push vertex.uv }

/-- Appends a triangle to the first group with a name, which comes into being behind the
others if there is none. -/
def addToGroup (name : Text) (triangle : Triangle UInt32) : List TriangleGroup → List TriangleGroup
  | [] => [⟨name, #[triangle.a, triangle.b, triangle.c]⟩]
  | group :: groups =>
    if group.name = name then
      { group with
        indices := ((group.indices.push triangle.a).push triangle.b).push triangle.c } :: groups
    else
      group :: addToGroup name triangle groups

/-- Appends a triangle to a group. -/
def addTriangle (mesh : Mesh) (name : Text) (triangle : Triangle UInt32) : Mesh :=
  { mesh with groups := addToGroup name triangle mesh.groups }

/-- Appends a patch. -/
def place (mesh : Mesh) (patch : Patch) : Mesh :=
  let base := mesh.nextIndex
  let moved (corner : Nat) : UInt32 := base + corner.toUInt32
  patch.triangles.foldl
    (fun mesh corners =>
      mesh.addTriangle patch.group ⟨moved corners.a, moved corners.b, moved corners.c⟩)
    (patch.vertices.foldl addVertex mesh)

/-- The first group with a name. -/
def group? (mesh : Mesh) (name : Text) : Option TriangleGroup :=
  mesh.groups.find? fun group => group.name = name

/-- The number of triangles. -/
def triangleCount (mesh : Mesh) : Nat :=
  mesh.groups.foldr (fun group count => group.indices.size / 3 + count) 0

/-- The indices of all groups in one row. -/
def flatIndices (mesh : Mesh) : List UInt32 :=
  mesh.groups.flatMap fun group => group.indices.toList

/-- The parts of the row of all indices that belong to the groups, the first of which
begins at `offset`. -/
def rangesFrom (offset : Nat) : List TriangleGroup → List Span
  | [] => []
  | group :: groups =>
    let stop := offset + group.indices.size
    ⟨offset, stop⟩ :: rangesFrom stop groups

/-- The part of the row of all indices that belongs to each group. -/
def groupRanges (mesh : Mesh) : List Span :=
  rangesFrom 0 mesh.groups

/-- Each group with the material at its position, if there is one. -/
def submeshes (mesh : Mesh) : List (TriangleGroup × Option UInt8) :=
  mesh.groups.zipIdx.map fun (group, position) => (group, mesh.materials[position]?)

end Mesh

end Arbor
