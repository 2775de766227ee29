import Arbor.Mesh.PartTree

/-!
# Adding nodes to a tree

A new node is the last one of the tree and the last child of the node that it hangs
below; all other nodes keep their children. What the nodes draw is a list that only grows
at its end, because the link from above is all that an older node gets.
-/
namespace Arbor

variable {π : Type}

namespace PartTree

/-- The empty tree has no nodes. -/
@[simp] theorem size_empty : (empty : PartTree π).size = 0 := rfl

/-- A tree without nodes has no root, and any other has its first node for one. -/
theorem root?_eq (tree : PartTree π) : tree.root? = if tree.size = 0 then none else some 0 := by
  simp [root?, isEmpty, size]

/-- Linking takes no node away. -/
@[simp] theorem size_link (parent child : Nat) (nodes : Array (PartNode π)) :
    (link parent child nodes).size = nodes.size :=
  Array.size_modify

/-- There is one more node behind adding one. -/
@[simp] theorem size_add (tree : PartTree π) (parent : Option Nat) (part : π)
    (parameters : List Float32) (transform : Matrix) :
    (tree.add parent part parameters transform).size = tree.size + 1 := by
  unfold add size
  dsimp only
  split <;> simp

/-- The first node hangs below no other. -/
theorem attachment_of_empty {tree : PartTree π} (fresh : tree.size = 0) (parent : Option Nat) :
    tree.attachment parent = none := by
  simp [attachment, root?_eq, fresh]

/-- A later node hangs below the one that is asked for, or below the root. -/
theorem attachment_of_lt {tree : PartTree π} {parent : Option Nat}
    (present : parent.getD 0 < tree.size) :
    tree.attachment parent = some (parent.getD 0) := by
  have grown : tree.size ≠ 0 := Nat.ne_of_gt (Nat.zero_lt_of_lt present)
  cases parent with
  | none => simp [attachment, root?_eq, grown]
  | some above =>
    have kept : above < tree.size := present
    simp [attachment, root?_eq, grown, Option.filter, kept]

/-- A node hangs below the one that is asked for, or below the root if there is none. -/
theorem attachment_eq {tree : PartTree π} (grown : tree.size ≠ 0) (parent : Option Nat) :
    tree.attachment parent = some ((parent.filter (· < tree.size)).getD 0) := by
  simp [attachment, root?_eq, grown]

/-- Only in front of the first node is there nothing to hang below. -/
theorem attachment_eq_none_iff {tree : PartTree π} {parent : Option Nat} :
    tree.attachment parent = none ↔ tree.size = 0 := by
  simp [attachment, root?_eq]

/-- A node hangs below an older one, if it hangs below any. -/
theorem lt_of_attachment {tree : PartTree π} {parent : Option Nat} {above : Nat}
    (attached : tree.attachment parent = some above) : above < tree.size := by
  have grown : tree.size ≠ 0 := by
    intro fresh
    rw [attachment_of_empty fresh] at attached
    cases attached
  rw [attachment_eq grown, Option.some.injEq] at attached
  subst attached
  cases asked : parent.filter (· < tree.size) with
  | none => exact Nat.pos_of_ne_zero grown
  | some id => simpa using (Option.filter_eq_some_iff.mp asked).2

/-- The node with a number behind adding one: the new node is the last, and the one above it
has one more child. -/
theorem node?_add {tree : PartTree π} {parent : Option Nat} {above : Nat}
    (attached : tree.attachment parent = some above) (part : π) (parameters : List Float32)
    (transform : Matrix) (id : Nat) :
    (tree.add parent part parameters transform).node? id =
      if id = tree.size then some ⟨transform, parameters, part, some above, #[]⟩
      else if above = id then
        (tree.node? id).map fun node => { node with children := node.children.push tree.size }
      else tree.node? id := by
  simp only [add, attached, node?, size, link, Array.getElem?_push, Array.size_modify,
    Array.getElem?_modify]
  rfl

/-- A number that no node has stands for no children. -/
theorem childrenOf_of_le {tree : PartTree π} {id : Nat} (absent : tree.size ≤ id) :
    tree.childrenOf id = [] := by
  have outside : tree.node? id = none := Array.getElem?_eq_none absent
  rw [childrenOf, outside]
  rfl

/-- The first node has no children. -/
theorem childrenOf_add_of_empty {tree : PartTree π} (fresh : tree.size = 0)
    (parent : Option Nat) (part : π) (parameters : List Float32) (transform : Matrix)
    (id : Nat) : (tree.add parent part parameters transform).childrenOf id = [] := by
  cases id with
  | zero =>
    have nodes : tree.nodes = #[] := Array.eq_empty_of_size_eq_zero fresh
    simp [add, attachment_of_empty fresh, childrenOf, node?, nodes]
  | succ id =>
    refine childrenOf_of_le ?_
    rw [size_add, fresh]
    exact Nat.le_add_left 1 id

/-- A node that is added is the last child of the node above it and changes the children of
no other. -/
theorem childrenOf_add {tree : PartTree π} {parent : Option Nat} {above : Nat}
    (attached : tree.attachment parent = some above) (present : above < tree.size) (part : π)
    (parameters : List Float32) (transform : Matrix) (id : Nat) :
    (tree.add parent part parameters transform).childrenOf id =
      if above = id then tree.childrenOf id ++ [tree.size] else tree.childrenOf id := by
  rw [childrenOf, node?_add attached]
  by_cases last : id = tree.size
  · subst last
    have other : ¬above = tree.size := Nat.ne_of_lt present
    rw [if_pos rfl, if_neg other, childrenOf_of_le (Nat.le_refl _)]
    rfl
  · rw [if_neg last]
    by_cases same : above = id
    · subst same
      have found : tree.node? above = some tree.nodes[above] := Array.getElem?_eq_getElem present
      simp [childrenOf, found]
    · rw [if_neg same, if_neg same, childrenOf]

end PartTree

/-- What a node draws: its part, with the parameters and under the transform that it was
added with. -/
def PartNode.content (node : PartNode π) : π × List Float32 × Matrix :=
  (node.part, node.parameters, node.transform)

namespace PartTree

/-- What the nodes draw, in the order of their numbers. -/
def contents (tree : PartTree π) : List (π × List Float32 × Matrix) :=
  tree.nodes.toList.map PartNode.content

@[simp] theorem contents_empty : (empty : PartTree π).contents = [] := rfl

/-- Linking changes nothing of what the nodes draw. -/
theorem content_link (parent child : Nat) (nodes : Array (PartNode π)) :
    (link parent child nodes).toList.map PartNode.content =
      nodes.toList.map PartNode.content := by
  refine List.ext_getElem? fun id => ?_
  simp only [link, Array.toList_modify, List.getElem?_map, List.getElem?_modify]
  split
  · cases nodes.toList[id]? <;> rfl
  · cases nodes.toList[id]? <;> rfl

/-- What a new node draws comes last. -/
@[simp] theorem contents_add (tree : PartTree π) (parent : Option Nat) (part : π)
    (parameters : List Float32) (transform : Matrix) :
    (tree.add parent part parameters transform).contents =
      tree.contents ++ [(part, parameters, transform)] := by
  unfold add contents
  dsimp only
  split <;> simp [content_link, PartNode.content]

end PartTree

end Arbor
