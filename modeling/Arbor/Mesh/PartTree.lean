import Arbor.Mesh.Part

/-!
# Trees of mesh parts

The nodes of a tree are numbered in the order in which they were added, and refer to
each other by number. The first node is the root. Every later node hangs below the
node that is asked for, or below the root if none is asked for or if the number is not
that of an earlier node; so there is never a second root.

The mesh of a tree is written in depth-first order, every node before its children and
these in the order in which they were added.
-/
namespace Arbor

/-- A part in its place. -/
structure PartNode (π : Type) where
  /-- The transform of the turtle when the node was added. -/
  transform : Matrix
  /-- The parameters of the drawing symbol. -/
  parameters : List Float32
  part : π
  /-- The node above, which only the root does not have. -/
  parent : Option Nat
  /-- The nodes below in the order in which they were added. -/
  children : Array Nat

/-- The nodes of a tree by number. -/
structure PartTree (π : Type) where
  nodes : Array (PartNode π)

namespace PartTree

variable {π : Type}

/-- The tree without nodes. -/
def empty : PartTree π :=
  ⟨#[]⟩

instance : Inhabited (PartTree π) :=
  ⟨empty⟩

/-- The number of nodes. -/
def size (tree : PartTree π) : Nat :=
  tree.nodes.size

/-- Whether there are no nodes. -/
def isEmpty (tree : PartTree π) : Bool :=
  tree.nodes.isEmpty

/-- The root. -/
def root? (tree : PartTree π) : Option Nat :=
  if tree.isEmpty then none else some 0

/-- The node with a number. -/
def node? (tree : PartTree π) (id : Nat) : Option (PartNode π) :=
  tree.nodes[id]?

/-- The node below which the next node hangs when it asks for `parent`. -/
def attachment (tree : PartTree π) (parent : Option Nat) : Option Nat :=
  tree.root?.map fun root => (parent.filter (· < tree.size)).getD root

/-- Adds a child to the list of a node. -/
def link (parent child : Nat) (nodes : Array (PartNode π)) : Array (PartNode π) :=
  nodes.modify parent fun node => { node with children := node.children.push child }

/-- Adds a node; its number is the number of nodes before. The node above exists already,
so it gets its new child before the child is there. -/
def add (tree : PartTree π) (parent : Option Nat) (part : π) (parameters : List Float32)
    (transform : Matrix) : PartTree π :=
  let parent := tree.attachment parent
  let node : PartNode π := { transform, parameters, part, parent, children := #[] }
  match parent with
  | none => ⟨tree.nodes.push node⟩
  | some above => ⟨(link above tree.size tree.nodes).push node⟩

/-- The children of a node. -/
def childrenOf (tree : PartTree π) (id : Nat) : List Nat :=
  ((tree.node? id).map fun node => node.children.toList).getD []

/-- Takes nodes off a list of nodes to visit, at most `count` of them, and puts the
children of each in front of the others. -/
def visit (tree : PartTree π) : Nat → List Nat → List Nat
  | 0, _ => []
  | _, [] => []
  | count + 1, id :: waiting => id :: visit tree count (tree.childrenOf id ++ waiting)

/-- The numbers of all nodes, every node before its children. Each node is visited once,
so their number bounds the visits. -/
def depthFirst (tree : PartTree π) : List Nat :=
  tree.visit tree.size tree.root?.toList

/-- Appends the geometry of nodes in order. -/
def emitAll [Part π] (tree : PartTree π) : List Nat → Mesh → Draw Mesh
  | [], mesh => pure mesh
  | id :: ids, mesh =>
    match tree.node? id with
    | none => emitAll tree ids mesh
    | some node => do
      let mesh ← Part.emit node.part node.parameters node.transform mesh
      emitAll tree ids mesh

/-- The mesh of a tree. -/
def emit [Part π] (tree : PartTree π) : Draw Mesh :=
  tree.emitAll tree.depthFirst .empty

end PartTree

end Arbor
