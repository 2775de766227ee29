import Arbor.Proofs.MeshBuffers

/-!
# Corners in groups

A group keeps the corners of its triangles in one row. Triangles that are added one after the
other extend this row by all their corners at once: that of the first group with the name, or a new
row behind the other groups. Vertices that are added one after the other extend the rows of vertices
and texture coordinates.
-/
namespace Arbor

/-! ## Corners of triangles -/

namespace Triangle

variable {α β : Type}

/-- The corners one after the other. -/
def corners (triangle : Triangle α) : List α :=
  [triangle.a, triangle.b, triangle.c]

/-- The triangle of what the corners become. -/
def map (change : α → β) (triangle : Triangle α) : Triangle β :=
  ⟨change triangle.a, change triangle.b, change triangle.c⟩

/-- The corners of triangles. -/
def cornersOfAll (triangles : List (Triangle α)) : List α :=
  triangles.flatMap corners

/-- The corners of the first triangle come first. -/
theorem cornersOfAll_cons (triangle : Triangle α) (triangles : List (Triangle α)) :
    cornersOfAll (triangle :: triangles) = triangle.corners ++ cornersOfAll triangles :=
  List.flatMap_cons

/-- The corners of what triangles become are what the corners become. -/
theorem cornersOfAll_map (change : α → β) (triangles : List (Triangle α)) :
    cornersOfAll (triangles.map (map change)) = (cornersOfAll triangles).map change := by
  rw [cornersOfAll, cornersOfAll, List.flatMap_map, List.map_flatMap]
  rfl

end Triangle

namespace Mesh

open Triangle

/-! ## Extended groups -/

/-- Indices come behind those of the first group with a name and leave the other groups as they are,
or they are a group behind the others if none has the name. -/
inductive Extends (name : Text) (indices : Array UInt32) :
    List TriangleGroup → List TriangleGroup → Prop where
  | longer {before after : List TriangleGroup} {group : TriangleGroup}
      (first : ∀ other ∈ before, other.name ≠ name) (named : group.name = name) :
      Extends name indices (before ++ group :: after)
        (before ++ { group with indices := group.indices ++ indices } :: after)
  | fresh {groups : List TriangleGroup} (none : ∀ other ∈ groups, other.name ≠ name) :
      Extends name indices groups (groups ++ [⟨name, indices⟩])

/-- Appends indices to the first group with a name, which comes into being behind the others if
there is none. -/
def extendGroup (name : Text) (indices : Array UInt32) : List TriangleGroup → List TriangleGroup
  | [] => [⟨name, indices⟩]
  | group :: groups =>
    if group.name = name then
      { group with indices := group.indices ++ indices } :: groups
    else
      group :: extendGroup name indices groups

/-- One group is extended or added. -/
theorem extends_extendGroup (name : Text) (indices : Array UInt32) (groups : List TriangleGroup) :
    Extends name indices groups (extendGroup name indices groups) := by
  induction groups with
  | nil => exact .fresh (by simp)
  | cons group groups ih =>
    rw [extendGroup]
    split
    · next named => exact @Extends.longer name indices [] groups group (by simp) named
    · next other =>
      generalize extendGroup name indices groups = extended at ih ⊢
      cases ih with
      | longer first named => exact .longer (List.forall_mem_cons.mpr ⟨other, first⟩) named
      | fresh none => exact .fresh (List.forall_mem_cons.mpr ⟨other, none⟩)

/-- A triangle extends its group by its corners. -/
theorem addToGroup_eq (name : Text) (triangle : Triangle UInt32) (groups : List TriangleGroup) :
    addToGroup name triangle groups = extendGroup name triangle.corners.toArray groups := by
  induction groups with
  | nil => rfl
  | cons group groups ih =>
    have row : ((group.indices.push triangle.a).push triangle.b).push triangle.c =
        group.indices ++ triangle.corners.toArray := by
      apply Array.ext'
      simp [corners]
    rw [addToGroup, extendGroup, ih, row]

/-- Indices may be appended in two parts. -/
theorem extendGroup_extendGroup (name : Text) (indices more : Array UInt32)
    (groups : List TriangleGroup) :
    extendGroup name more (extendGroup name indices groups) =
      extendGroup name (indices ++ more) groups := by
  induction groups with
  | nil => simp [extendGroup]
  | cons group groups ih =>
    by_cases named : group.name = name
    · simp [extendGroup, named]
    · simp [extendGroup, named, ih]

/-- Triangles extend their group by all their corners. -/
theorem addTriangles_eq (mesh : Mesh) (name : Text) {triangles : List (Triangle UInt32)}
    (some : triangles ≠ []) :
    mesh.addTriangles name triangles =
      { mesh with groups := extendGroup name (cornersOfAll triangles).toArray mesh.groups } := by
  induction triangles generalizing mesh with
  | nil => exact absurd rfl some
  | cons triangle triangles ih =>
    rw [addTriangles, List.foldl_cons, ← addTriangles, addTriangle, addToGroup_eq]
    by_cases last : triangles = []
    · subst last
      simp [addTriangles, cornersOfAll]
    · rw [ih _ last, extendGroup_extendGroup, cornersOfAll_cons, List.append_toArray]

/-- Vertices extend the rows of vertices and texture coordinates. -/
theorem addVertices_eq (mesh : Mesh) (vertices : List Vertex) :
    mesh.addVertices vertices =
      { mesh with
        vertices := mesh.vertices ++ (vertices.map Vertex.position).toArray
        uvs := mesh.uvs ++ (vertices.map Vertex.uv).toArray } := by
  induction vertices generalizing mesh with
  | nil => simp [addVertices]
  | cons vertex vertices ih =>
    rw [addVertices, List.foldl_cons, ← addVertices, ih, addVertex]
    simp

end Mesh

end Arbor
