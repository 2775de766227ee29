import Arbor.Mesh.Basic

/-!
# Quads

Joints and leaves are made of quads that share no vertices: four corners in order and
two triangles over them.
-/
namespace Arbor

/-- The triangles of the quad with this number. -/
def quadTriangles (number : Nat) : List (Triangle Nat) :=
  let base := 4 * number
  [⟨base + 2, base + 1, base⟩, ⟨base, base + 3, base + 2⟩]

/-- The patch of quads, each given by its corners. -/
def Patch.ofQuads (group : Text) (quads : List (List Vertex)) : Patch :=
  ⟨quads.flatten, group, (List.range quads.length).flatMap quadTriangles⟩

end Arbor
