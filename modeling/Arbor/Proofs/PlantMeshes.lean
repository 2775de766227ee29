import Arbor.Plant.StockTree
import Arbor.Proofs.CreationOrder
import Arbor.Proofs.WordIndices

/-!
# Meshes of plants

The mesh of a sequence is made of the patches of its nodes. For the parts of plants these
patches are well formed and have what the parameters and the drawn numbers of leaves tell,
and their indices may be computed in words, provided that the vertices can be counted in
words.
-/
namespace Arbor

/-! ## Nodes in turn -/

namespace PartNode

/-- What a node of a plant is going to have, looked at in front of its patch. -/
def tally (node : PartNode PlantPart) : Draw Tally := do
  let tally ← (node.part.tally node.parameters).peek
  let _ ← node.patch
  pure tally

/-- The patch of a node has what was looked at. -/
theorem run_tally {node : PartNode PlantPart} {generator after : Generator} {patch : Patch}
    (drawn : node.patch.run generator = some (patch, after)) :
    node.tally.run generator = some (patch.tally, after) := by
  have counted := PlantPart.exists_tally_of_patch drawn
  have looked := Draw.peek_eq_some_iff.mpr ⟨counted, rfl⟩
  refine Draw.bind_eq_some_iff.mpr ⟨patch.tally, generator, looked, ?_⟩
  exact Draw.bind_eq_some_iff.mpr ⟨patch, after, drawn, rfl⟩

/-- Writes a node behind the vertices that are there. -/
def write (mesh : Mesh) (node : PartNode PlantPart) : Draw Mesh :=
  node.part.write node.parameters node.transform mesh

/-- Nodes are written one after the other like their patches are placed, if all vertices can
be counted. -/
theorem run_foldlM_write {nodes : List (PartNode PlantPart)} {generator after : Generator}
    {patches : List Patch} (drawn : Draw.Each PartNode.patch generator nodes patches after)
    {mesh : Mesh} (fits : (patches.foldl Mesh.place mesh).vertices.size ≤ UInt32.size) :
    (nodes.foldlM write mesh).run generator = some (patches.foldl Mesh.place mesh, after) := by
  induction drawn generalizing mesh with
  | done => rfl
  | @next node nodes patch patches generator between after here _ ih =>
    have first : (write mesh node).run generator = some (mesh.place patch, between) :=
      PlantPart.run_write here (Mesh.room_of_placeAll fits)
    rw [List.foldlM_cons]
    exact Draw.bind_eq_some_iff.mpr ⟨mesh.place patch, between, first, ih fits⟩

end PartNode

namespace PartTree

/-- What the nodes of a plant are going to have, in the order of their numbers. -/
def tallies (tree : PartTree PlantPart) : Draw (List Tally) :=
  tree.nodes.toList.mapM PartNode.tally

/-- Writes the nodes of a plant in depth-first order. -/
def write (tree : PartTree PlantPart) : Draw Mesh :=
  (tree.depthFirst.filterMap tree.node?).foldlM PartNode.write .empty

end PartTree

namespace Interpretation

/-- The generator that the parts of a sequence draw from. -/
def generator {π : Type} (interpretation : Interpretation π) (fresh : Generator) : Generator :=
  (interpretation.seed.map Generator.ofSeed).getD fresh

/-- A mesh is what a tree writes, with the materials. -/
theorem exists_emit_of_mesh {π : Type} [Part π] {interpretation : Interpretation π}
    {fresh : Generator} {sequence : Text} {mesh : Mesh}
    (grown : interpretation.mesh fresh sequence = some (.ok mesh)) :
    ∃ tree written after, interpretation.tree sequence = .ok tree ∧
      tree.emit.run (interpretation.generator fresh) = some (written, after) ∧
        mesh = { written with materials := interpretation.materials } := by
  cases read : interpretation.tree sequence with
  | error fault =>
    rw [Interpretation.mesh, read] at grown
    cases grown
  | ok tree =>
    simp only [Interpretation.mesh, read] at grown
    split at grown
    · cases grown
    · obtain ⟨⟨written, after⟩, emitted, made⟩ := Option.map_eq_some_iff.mp grown
      exact ⟨tree, written, after, rfl, emitted, (Except.ok.inj made).symm⟩

/-- The tree of a sequence is in depth-first order. -/
theorem depthFirst_of_tree {π : Type} [Part π] {interpretation : Interpretation π}
    {sequence : Text} {tree : PartTree π} (grown : interpretation.tree sequence = .ok tree) :
    tree.depthFirst = List.range tree.size := by
  obtain ⟨final, place, _, rfl, reached⟩ := exists_reaches_of_tree grown
  exact (onThread_of_reaches reached).depthFirst

/-- A mesh of a plant whose vertices can be counted in words is well formed. It is placed
from the patches of the nodes in order. These have what the parameters and the drawn numbers
of leaves tell, and all their indices may be computed in words. -/
theorem wellFormed_mesh {interpretation : Interpretation PlantPart} {fresh : Generator}
    {sequence : Text} {mesh : Mesh}
    (grown : interpretation.mesh fresh sequence = some (.ok mesh))
    (countable : mesh.vertices.size ≤ 2 ^ 32) :
    mesh.WellFormed [barkGroup, leafGroup] ∧
      ∃ tree patches tallies written after, interpretation.tree sequence = .ok tree ∧
        tree.patches.run (interpretation.generator fresh) = some (patches, after) ∧
        tree.tallies.run (interpretation.generator fresh) = some (tallies, after) ∧
        tree.write.run (interpretation.generator fresh) = some (written, after) ∧
        written = patches.foldl Mesh.place .empty ∧
        mesh = { written with materials := interpretation.materials } ∧
        tallies = patches.map Patch.tally ∧
        mesh.vertices.size = (tallies.map Tally.vertices).sum ∧
        mesh.triangleCount = (tallies.map Tally.triangles).sum := by
  obtain ⟨tree, written, after, read, emitted, rfl⟩ := exists_emit_of_mesh grown
  have ordered := depthFirst_of_tree read
  rw [PartTree.emit_of_depthFirst ordered] at emitted
  obtain ⟨patches, later, drawn, placed⟩ := Draw.bind_eq_some_iff.mp emitted
  obtain ⟨rfl, rfl⟩ := Draw.pure_eq_some_iff.mp placed
  have each := Draw.mapM_eq_some_iff.mp drawn
  have proper : ∀ patch ∈ patches, patch.WellFormed plantGroups :=
    each.forall_mem PlantPart.wellFormed_of_patch
  have well := (Mesh.WellFormed.empty plantGroups).placeAll proper countable
  have tallied : tree.tallies.run (interpretation.generator fresh) =
      some (patches.map Patch.tally, later) :=
    Draw.mapM_eq_some_iff.mpr (each.map PartNode.run_tally)
  have written : tree.write.run (interpretation.generator fresh) =
      some (patches.foldl Mesh.place .empty, later) := by
    rw [PartTree.write, ordered, PartTree.filterMap_node?_range]
    exact PartNode.run_foldlM_write each countable
  obtain ⟨vertices, triangles⟩ := Mesh.tally_placeAll .empty patches
  refine ⟨⟨well.uvs, well.distinct, well.groups⟩, tree, patches, _, _, later, read, drawn,
    tallied, written, rfl, rfl, rfl, ?_, ?_⟩
  · rw [List.map_map]
    exact vertices.trans (Nat.zero_add _)
  · rw [List.map_map]
    exact triangles.trans (Nat.zero_add _)

/-- A trunk of three by two cells has twelve vertices, a joint of two by three quads has
twenty-four, a trunk without segments along it none, and a cluster for which two leaves are
drawn has eight. -/
theorem wellFormed_mesh_small :
    ∃ mesh, (StockTree.interpretation (some 7) .unitY).mesh (.ofSeed 0)
        "D(1,1,1,3,2,0,0)J(1,3,4)D(1,1,1,5,0,0,0)[L(1,4,1,1,1,1,0,0,0,0)]".toList =
          some (.ok mesh) ∧
      mesh.vertices.size = 44 ∧ mesh.triangleCount = 28 ∧
        mesh.WellFormed [barkGroup, leafGroup] := by
  have counts : ((StockTree.interpretation (some 7) .unitY).mesh (.ofSeed 0)
        "D(1,1,1,3,2,0,0)J(1,3,4)D(1,1,1,5,0,0,0)[L(1,4,1,1,1,1,0,0,0,0)]".toList).map
          (Except.map fun mesh => (mesh.vertices.size, mesh.triangleCount)) =
            some (.ok (44, 28)) := by
    decide +kernel
  obtain ⟨result, grown, counted⟩ := Option.map_eq_some_iff.mp counts
  obtain ⟨mesh, rfl, sizes⟩ := map_eq_ok_iff.mp counted
  obtain ⟨vertices, triangles⟩ := Prod.mk.inj sizes
  have countable : mesh.vertices.size ≤ 2 ^ 32 := by
    rw [vertices]
    decide
  exact ⟨mesh, grown, vertices, triangles, (wellFormed_mesh grown countable).1⟩

end Interpretation

end Arbor
