import Arbor.Proofs.PlantMeshes
import Arbor.Proofs.Walks

/-!
# Meshes of longer sequences

What is written to a mesh stays there. Vertices come behind the others, a triangle goes to the
end of its group, and a new group comes behind the others. So if the nodes of one tree are the
first ones of another tree, and the numbers are drawn from the same generator, then the mesh
of the first tree is the beginning of the mesh of the other one.

A sequence that goes on adds nodes anywhere in the tree. But a tree is written in the order in
which its nodes were added, so the nodes of the first sequence come first, and they draw what
they would draw alone.
-/
namespace Arbor

variable {π : Type}

/-! ## Meshes that begin others -/

namespace Mesh

variable {mesh later last : Mesh}

/-- A mesh begins another one: its vertices with their texture coordinates are the first ones
of the other, its groups stand under the same names at the same places in front, and the
indices of each group are the first ones of that group. -/
structure Begins (mesh later : Mesh) : Prop where
  vertices : mesh.vertices.toList <+: later.vertices.toList
  uvs : mesh.uvs.toList <+: later.uvs.toList
  names : mesh.groups.map TriangleGroup.name <+: later.groups.map TriangleGroup.name
  indices : ∀ (place : Nat) (group : TriangleGroup), mesh.groups[place]? = some group →
    ∃ longer : TriangleGroup, later.groups[place]? = some longer ∧ longer.name = group.name ∧
      group.indices.toList <+: longer.indices.toList

namespace Begins

/-- A mesh begins itself. -/
theorem refl (mesh : Mesh) : mesh.Begins mesh where
  vertices := List.prefix_refl _
  uvs := List.prefix_refl _
  names := List.prefix_refl _
  indices _ group found := ⟨group, found, rfl, List.prefix_refl _⟩

/-- What begins a mesh begins all that this one begins. -/
theorem trans (first : mesh.Begins later) (second : later.Begins last) : mesh.Begins last where
  vertices := first.vertices.trans second.vertices
  uvs := first.uvs.trans second.uvs
  names := first.names.trans second.names
  indices place group found := by
    obtain ⟨longer, present, named, front⟩ := first.indices place group found
    obtain ⟨longest, there, same, behind⟩ := second.indices place longer present
    exact ⟨longest, there, same.trans named, front.trans behind⟩

end Begins

/-- A vertex comes behind the others. -/
theorem begins_addVertex (mesh : Mesh) (vertex : Vertex) :
    mesh.Begins (mesh.addVertex vertex) where
  vertices := by
    rw [addVertex, Array.toList_push]
    exact List.prefix_append _ _
  uvs := by
    rw [addVertex, Array.toList_push]
    exact List.prefix_append _ _
  names := List.prefix_refl _
  indices _ group found := ⟨group, found, rfl, List.prefix_refl _⟩

/-- A group stays at its place with the indices that it has when a triangle is added. -/
theorem exists_getElem?_addToGroup (name : Text) (triangle : Triangle UInt32)
    {groups : List TriangleGroup} {place : Nat} {group : TriangleGroup}
    (found : groups[place]? = some group) :
    ∃ longer : TriangleGroup, (addToGroup name triangle groups)[place]? = some longer ∧
      longer.name = group.name ∧ group.indices.toList <+: longer.indices.toList := by
  induction groups generalizing place with
  | nil => cases found
  | cons first groups ih =>
    rw [addToGroup]
    split
    · cases place with
      | zero =>
        obtain rfl : first = group := Option.some.inj found
        refine ⟨first.push triangle, rfl, rfl, ?_⟩
        simp [TriangleGroup.push]
      | succ place => exact ⟨group, found, rfl, List.prefix_refl _⟩
    · cases place with
      | zero => exact ⟨group, found, rfl, List.prefix_refl _⟩
      | succ place => exact ih found

/-- A triangle comes behind the others of its group, and its group behind the others if it is
new. -/
theorem begins_addTriangle (mesh : Mesh) (name : Text) (triangle : Triangle UInt32) :
    mesh.Begins (mesh.addTriangle name triangle) where
  vertices := List.prefix_refl _
  uvs := List.prefix_refl _
  names := by
    rw [addTriangle, map_name_addToGroup]
    exact List.prefix_append _ _
  indices _ _ found := exists_getElem?_addToGroup name triangle found

/-- Vertices come behind the others. -/
theorem begins_addVertices (mesh : Mesh) (vertices : List Vertex) :
    mesh.Begins (mesh.addVertices vertices) := by
  induction vertices generalizing mesh with
  | nil => exact .refl mesh
  | cons vertex vertices ih => exact (mesh.begins_addVertex vertex).trans (ih _)

/-- Triangles come behind the others of their group. -/
theorem begins_addTriangles (mesh : Mesh) (name : Text) (triangles : List (Triangle UInt32)) :
    mesh.Begins (mesh.addTriangles name triangles) := by
  induction triangles generalizing mesh with
  | nil => exact .refl mesh
  | cons triangle triangles ih => exact (mesh.begins_addTriangle name triangle).trans (ih _)

/-- A patch comes behind what is there. -/
theorem begins_place (mesh : Mesh) (patch : Patch) : mesh.Begins (mesh.place patch) := by
  rw [place_eq]
  exact (mesh.begins_addVertices _).trans (begins_addTriangles _ _ _)

/-- Patches come one behind the other. -/
theorem begins_placeAll (mesh : Mesh) (patches : List Patch) :
    mesh.Begins (patches.foldl place mesh) := by
  induction patches generalizing mesh with
  | nil => exact .refl mesh
  | cons patch patches ih => exact (mesh.begins_place patch).trans (ih _)

end Mesh

/-! ## Trees with the same first nodes -/

variable [Part π]

/-- Whatever a turtle does, the nodes that it has are the first ones of its tree and draw what
they drew before. -/
theorem Turtle.contents_perform (turtle : Turtle π) (action : TurtleAction π) :
    turtle.tree.contents <+: (turtle.perform action).tree.contents := by
  cases action with
  | rotate axis angle => exact List.prefix_refl _
  | move axis distance => exact List.prefix_refl _
  | save => exact List.prefix_refl _
  | restore =>
    have same : (turtle.perform .restore).tree = turtle.tree := tree_restore turtle
    exact (congrArg PartTree.contents same) ▸ List.prefix_refl _
  | spawn part parameters =>
    show _ <+: (turtle.spawn part parameters).tree.contents
    rw [tree_spawn, PartTree.contents_add]
    exact List.prefix_append _ _

/-- However much a turtle does, the nodes that it has stay the first ones. -/
theorem Turtle.contents_performAll (turtle : Turtle π) (actions : List (TurtleAction π)) :
    turtle.tree.contents <+: (turtle.performAll actions).tree.contents := by
  induction actions generalizing turtle with
  | nil => exact List.prefix_refl _
  | cons action actions ih => exact (turtle.contents_perform action).trans (ih _)

namespace PartTree

/-- The patches of a tree depend on what its nodes draw and not on how they are linked. -/
theorem patches_eq (tree : PartTree π) :
    tree.patches = tree.contents.mapM fun content =>
      Part.patch content.1 content.2.1 content.2.2 := by
  rw [patches, contents, List.mapM_map]
  rfl

/-- The patches of the first nodes of a tree are drawn first. -/
theorem exists_patches_of_prefix {tree longer : PartTree π}
    (first : tree.contents <+: longer.contents) {generator after last : Generator}
    {patches more : List Patch} (drawn : tree.patches.run generator = some (patches, after))
    (further : longer.patches.run generator = some (more, last)) :
    patches <+: more := by
  obtain ⟨behind, split⟩ := first
  rw [patches_eq, ← split, List.mapM_append] at further
  obtain ⟨front, between, same, further⟩ := Draw.bind_eq_some_iff.mp further
  obtain ⟨back, _, _, made⟩ := Draw.bind_eq_some_iff.mp further
  obtain ⟨rfl, _⟩ := Draw.pure_eq_some_iff.mp made
  rw [patches_eq] at drawn
  obtain ⟨rfl, _⟩ := Prod.mk.inj (Option.some.inj (drawn.symm.trans same))
  exact List.prefix_append _ _

end PartTree

namespace Interpretation

/-- A mesh is placed from the patches of its tree, drawn in the order of the nodes. -/
theorem exists_patches_of_mesh {interpretation : Interpretation π} {fresh : Generator}
    {sequence : Text} {mesh : Mesh}
    (grown : interpretation.mesh fresh sequence = some (.ok mesh)) :
    ∃ tree patches after, interpretation.tree sequence = .ok tree ∧
      tree.patches.run (interpretation.generator fresh) = some (patches, after) ∧
        mesh = { patches.foldl Mesh.place .empty with materials := interpretation.materials } := by
  obtain ⟨tree, written, after, read, emitted, rfl⟩ := exists_emit_of_mesh grown
  rw [PartTree.emit_of_depthFirst (depthFirst_of_tree read)] at emitted
  obtain ⟨patches, later, drawn, placed⟩ := Draw.bind_eq_some_iff.mp emitted
  obtain ⟨rfl, rfl⟩ := Draw.pure_eq_some_iff.mp placed
  exact ⟨tree, patches, later, read, drawn, rfl⟩

/-- A sequence that goes on only adds to its mesh. With a fixed seed the mesh of a sequence
begins the mesh of each longer one, and has the same materials, whatever the parts are and
wherever the new nodes hang. What follows must not begin with an opening bracket, since this
one would open a list of the last symbol. -/
theorem begins_mesh_append (interpretation : Interpretation π) {seed : UInt64}
    (fixed : interpretation.seed = some seed) {first second : Text}
    (bare : second.head? ≠ some '(') {fresh other : Generator} {mesh longer : Mesh}
    (grown : interpretation.mesh fresh first = some (.ok mesh))
    (further : interpretation.mesh other (first ++ second) = some (.ok longer)) :
    mesh.Begins longer ∧ mesh.materials = longer.materials := by
  obtain ⟨tree, patches, after, read, drawn, rfl⟩ := exists_patches_of_mesh grown
  obtain ⟨tree', more, last, read', drawn', rfl⟩ := exists_patches_of_mesh further
  have generator : interpretation.generator fresh = interpretation.generator other := by
    rw [Interpretation.generator, Interpretation.generator, fixed]
    rfl
  rw [generator] at drawn
  obtain ⟨turtle, actions, rfl, rfl⟩ := exists_performAll_of_append bare read read'
  obtain ⟨behind, rfl⟩ :=
    PartTree.exists_patches_of_prefix (turtle.contents_performAll actions) drawn drawn'
  have begins := Mesh.begins_placeAll (patches.foldl Mesh.place .empty) behind
  rw [← List.foldl_append] at begins
  exact ⟨⟨begins.vertices, begins.uvs, begins.names, begins.indices⟩, rfl⟩

/-- A sequence may stop inside of a branch. What follows closes the branch and puts a second
cluster of leaves below the trunk, next to the one of the branch; the leaves of the branch stay
where they are. -/
theorem begins_mesh_append_open_branch :
    ∃ mesh longer, (StockTree.interpretation (some 7) .unitY).mesh default
        "D(1,1,1,3,2,0,0)[L(2,2,1,4,1,1,0,0,0,0)".toList = some (.ok mesh) ∧
      (StockTree.interpretation (some 7) .unitY).mesh default
        ("D(1,1,1,3,2,0,0)[L(2,2,1,4,1,1,0,0,0,0)".toList ++
          "]L(1,1,1,4,1,1,0,0,0,0)".toList) = some (.ok longer) ∧
      mesh.vertices.size = 20 ∧ longer.vertices.size = 24 ∧ mesh.Begins longer := by
  have short : ((StockTree.interpretation (some 7) .unitY).mesh default
        "D(1,1,1,3,2,0,0)[L(2,2,1,4,1,1,0,0,0,0)".toList).map
          (Except.map fun mesh => mesh.vertices.size) = some (.ok 20) := by decide +kernel
  have long : ((StockTree.interpretation (some 7) .unitY).mesh default
        ("D(1,1,1,3,2,0,0)[L(2,2,1,4,1,1,0,0,0,0)".toList ++
          "]L(1,1,1,4,1,1,0,0,0,0)".toList)).map
          (Except.map fun mesh => mesh.vertices.size) = some (.ok 24) := by decide +kernel
  obtain ⟨result, grown, outcome⟩ := Option.map_eq_some_iff.mp short
  obtain ⟨mesh, rfl, size⟩ := map_eq_ok_iff.mp outcome
  obtain ⟨result, further, outcome⟩ := Option.map_eq_some_iff.mp long
  obtain ⟨longer, rfl, larger⟩ := map_eq_ok_iff.mp outcome
  have begins := (begins_mesh_append _ rfl (by decide) grown further).1
  exact ⟨mesh, longer, grown, further, size, larger, begins⟩

end Interpretation

end Arbor
