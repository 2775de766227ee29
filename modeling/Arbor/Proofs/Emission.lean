import Mathlib.Control.Monad.Basic
import Arbor.Mesh.PartTree

/-!
# The geometry of a tree

The mesh of a tree is written node by node. What a node contributes depends on the numbers
drawn but not on the mesh that is there, so the same mesh comes out when all patches are
drawn first, one after the other, and then placed in the same order.
-/
namespace Arbor

variable {π : Type}

/-- The numbers of all nodes stand for all nodes. -/
theorem PartTree.filterMap_node?_range (tree : PartTree π) :
    (List.range tree.size).filterMap tree.node? = tree.nodes.toList := by
  have all : (List.range tree.size).map tree.node? = tree.nodes.toList.map some := by
    refine List.ext_getElem? fun id => ?_
    by_cases inside : id < tree.nodes.size
    · simp [size, node?, inside]
    · simp [size, inside]
  calc (List.range tree.size).filterMap tree.node?
      = ((List.range tree.size).map tree.node?).filterMap id := by
        rw [List.filterMap_map, Function.id_comp]
    _ = tree.nodes.toList := by
        rw [all, List.filterMap_map, Function.id_comp, List.filterMap_some]

variable [Part π]

/-- The geometry of a node. -/
def PartNode.patch (node : PartNode π) : Draw Patch :=
  Part.patch node.part node.parameters node.transform

namespace PartTree

/-- The patches of all nodes, drawn in the order of the numbers of the nodes. -/
def patches (tree : PartTree π) : Draw (List Patch) :=
  tree.nodes.toList.mapM PartNode.patch

/-- The nodes of numbers are drawn first and placed then. -/
theorem emitAll_eq (tree : PartTree π) (ids : List Nat) (mesh : Mesh) :
    tree.emitAll ids mesh = (do
      let patches ← (ids.filterMap tree.node?).mapM PartNode.patch
      pure (patches.foldl Mesh.place mesh)) := by
  induction ids generalizing mesh with
  | nil => simp [emitAll]
  | cons id ids ih =>
    cases found : tree.node? id with
    | none => simp only [emitAll, found, List.filterMap_cons, ih]
    | some node =>
      simp only [emitAll, found, Part.emit, List.filterMap_cons, ih, List.mapM_cons, bind_assoc,
        pure_bind, List.foldl_cons, PartNode.patch]

/-- A tree in depth-first order is written in the order of the numbers. -/
theorem emit_of_depthFirst {tree : PartTree π}
    (ordered : tree.depthFirst = List.range tree.size) :
    tree.emit = (do
      let patches ← tree.patches
      pure (patches.foldl Mesh.place .empty)) := by
  rw [emit, emitAll_eq, ordered, filterMap_node?_range, patches]

end PartTree

end Arbor
