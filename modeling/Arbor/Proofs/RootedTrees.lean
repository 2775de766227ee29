import Mathlib.Data.List.Count
import Mathlib.Data.List.Perm.Basic
import Arbor.Proofs.DepthFirst

/-!
# Rooted trees

Whatever is asked for when nodes are added, the nodes make up one tree. Its root is the first
node. Every other node hangs below an older one and stands in the list of this node, once and in
no other list, and each list is in the order in which its nodes were added.

A node is older than all nodes below it, so a tree can be listed by recursion: a node first, and
then what hangs below it from left to right. Every node is found once in this way. The visit
that keeps a list of waiting nodes instead comes past the nodes in the same order, and its list
is empty at the end.
-/
namespace Arbor

variable {π : Type}

/-- A node that a tree is asked to add. The node to hang below may be no node of the tree. -/
structure PartAddition (π : Type) where
  parent : Option Nat
  part : π
  parameters : List Float32
  transform : Matrix

namespace PartTree

/-- Adds nodes one after the other. -/
def addAll (tree : PartTree π) (additions : List (PartAddition π)) : PartTree π :=
  additions.foldl (fun tree addition =>
    tree.add addition.parent addition.part addition.parameters addition.transform) tree

/-- The node above the one with a number. -/
def parentOf (tree : PartTree π) (id : Nat) : Option Nat :=
  (tree.node? id).bind PartNode.parent

/-- The nodes are one tree, which grows from its first node. -/
structure Rooted (tree : PartTree π) : Prop where
  /-- The first node, and no other, hangs below none. -/
  parentOf_eq_none_iff : ∀ id < tree.size, tree.parentOf id = none ↔ id = 0
  /-- A node is newer than the one above it. -/
  parentOf_lt : ∀ id above, tree.parentOf id = some above → above < id
  /-- A node stands once in the list of the node above it and not in the list of another one. -/
  count_childrenOf : ∀ above id,
    (tree.childrenOf above).count id = if tree.parentOf id = some above then 1 else 0
  /-- Older children stand in front of newer ones. -/
  ascending : ∀ above, (tree.childrenOf above).Pairwise (· < ·)

/-! ## Adding nodes -/

/-- A number that no node has hangs below none. -/
theorem parentOf_of_le {tree : PartTree π} {id : Nat} (absent : tree.size ≤ id) :
    tree.parentOf id = none := by
  have outside : tree.node? id = none := Array.getElem?_eq_none absent
  rw [parentOf, outside, Option.bind_none]

/-- A new node hangs where it was attached, and the others where they hung before. -/
theorem parentOf_add (tree : PartTree π) (parent : Option Nat) (part : π)
    (parameters : List Float32) (transform : Matrix) (id : Nat) :
    (tree.add parent part parameters transform).parentOf id =
      if id = tree.size then tree.attachment parent else tree.parentOf id := by
  cases attached : tree.attachment parent with
  | none =>
    have fresh : tree.nodes = #[] :=
      Array.eq_empty_of_size_eq_zero (attachment_eq_none_iff.mp attached)
    cases id with
    | zero => simp [parentOf, add, attached, node?, size, fresh]
    | succ id => simp [parentOf, add, attached, node?, size, fresh]
  | some above =>
    rw [parentOf, node?_add attached]
    by_cases last : id = tree.size
    · rw [if_pos last, if_pos last]
      rfl
    · rw [if_neg last, if_neg last, parentOf]
      by_cases linked : above = id
      · rw [if_pos linked]
        cases tree.node? id <;> rfl
      · rw [if_neg linked]

/-- The children of each node behind adding one: where it hangs, it comes last. -/
theorem childrenOf_add_eq (tree : PartTree π) (parent : Option Nat) (part : π)
    (parameters : List Float32) (transform : Matrix) (id : Nat) :
    (tree.add parent part parameters transform).childrenOf id =
      if tree.attachment parent = some id then tree.childrenOf id ++ [tree.size]
      else tree.childrenOf id := by
  cases attached : tree.attachment parent with
  | none =>
    have fresh := attachment_eq_none_iff.mp attached
    have none : tree.childrenOf id = [] := childrenOf_of_le (by omega)
    rw [childrenOf_add_of_empty fresh, if_neg (by simp), none]
  | some above =>
    rw [childrenOf_add attached (lt_of_attachment attached)]
    simp only [Option.some.injEq]

namespace Rooted

variable {tree : PartTree π}

/-- There is nothing to be said of a tree without nodes. -/
theorem empty : (empty : PartTree π).Rooted where
  parentOf_eq_none_iff id inside := absurd inside (Nat.not_lt_zero id)
  parentOf_lt id above hangs := by
    rw [parentOf_of_le (Nat.zero_le id)] at hangs
    cases hangs
  count_childrenOf above id := by
    rw [childrenOf_of_le (Nat.zero_le above), parentOf_of_le (Nat.zero_le id)]
    rfl
  ascending above := by
    rw [childrenOf_of_le (Nat.zero_le above)]
    exact .nil

/-- The nodes in the list of a node are those that hang below it. -/
theorem mem_childrenOf_iff (rooted : tree.Rooted) {above id : Nat} :
    id ∈ tree.childrenOf above ↔ tree.parentOf id = some above := by
  rw [← List.count_pos_iff, rooted.count_childrenOf]
  by_cases hangs : tree.parentOf id = some above <;> simp [hangs]

/-- A child is a node of the tree that is newer than the node above it. -/
theorem lt_of_mem_childrenOf (rooted : tree.Rooted) {above id : Nat}
    (listed : id ∈ tree.childrenOf above) : above < id ∧ id < tree.size := by
  have hangs := rooted.mem_childrenOf_iff.mp listed
  constructor
  · exact rooted.parentOf_lt id above hangs
  · by_contra outside
    rw [parentOf_of_le (Nat.le_of_not_lt outside)] at hangs
    cases hangs

/-- A tree stays one tree whatever node is asked for when a further one is added. -/
theorem add (rooted : tree.Rooted) (parent : Option Nat) (part : π)
    (parameters : List Float32) (transform : Matrix) :
    (tree.add parent part parameters transform).Rooted := by
  constructor
  case parentOf_eq_none_iff =>
    intro id inside
    rw [size_add] at inside
    rw [parentOf_add]
    by_cases last : id = tree.size
    · rw [if_pos last, attachment_eq_none_iff, last]
    · rw [if_neg last]
      exact rooted.parentOf_eq_none_iff id (by omega)
  case parentOf_lt =>
    intro id above hangs
    rw [parentOf_add] at hangs
    by_cases last : id = tree.size
    · rw [if_pos last] at hangs
      rw [last]
      exact lt_of_attachment hangs
    · rw [if_neg last] at hangs
      exact rooted.parentOf_lt id above hangs
  case count_childrenOf =>
    intro above id
    have counted := rooted.count_childrenOf above id
    rw [childrenOf_add_eq, parentOf_add]
    by_cases last : id = tree.size
    · -- the new node stood in no list before
      rw [last, parentOf_of_le (Nat.le_refl _)] at counted
      subst last
      by_cases here : tree.attachment parent = some above
      · simp [here, List.count_append, counted]
      · simp [here, counted]
    · have other : ¬tree.size = id := fun same => last same.symm
      by_cases here : tree.attachment parent = some above
      · simp [here, List.count_append, counted, last, other]
      · simp [here, counted, last]
  case ascending =>
    intro above
    rw [childrenOf_add_eq]
    by_cases here : tree.attachment parent = some above
    · rw [if_pos here]
      refine List.pairwise_append.mpr ⟨rooted.ascending above, List.pairwise_singleton _ _, ?_⟩
      intro older listed newest found
      obtain rfl : newest = tree.size := List.mem_singleton.mp found
      exact (rooted.lt_of_mem_childrenOf listed).2
    · rw [if_neg here]
      exact rooted.ascending above

/-- A tree stays one tree whatever nodes are added. -/
theorem addAll (rooted : tree.Rooted) (additions : List (PartAddition π)) :
    (tree.addAll additions).Rooted := by
  induction additions generalizing tree with
  | nil => exact rooted
  | cons addition additions ih => exact ih (rooted.add _ _ _ _)

/-! ## Listing a tree -/

/-- A node and behind it what hangs below it, child by child. -/
def preorder (rooted : tree.Rooted) (id : Nat) : List Nat :=
  id :: (tree.childrenOf id).attach.flatMap fun child => rooted.preorder child.1
termination_by tree.size - id
decreasing_by
  have newer := rooted.lt_of_mem_childrenOf child.2
  omega

/-- What is listed for a node, without the reason why the listing ends. -/
theorem preorder_eq (rooted : tree.Rooted) (id : Nat) :
    rooted.preorder id = id :: (tree.childrenOf id).flatMap rooted.preorder := by
  rw [preorder]
  simp [List.flatMap_subtype]

/-- What holds of a node if it holds of its children holds of every node. The induction is on
the number of newer nodes. -/
theorem induction (rooted : tree.Rooted) {motive : Nat → Prop}
    (step : ∀ id, (∀ child ∈ tree.childrenOf id, motive child) → motive id) (id : Nat) :
    motive id := by
  apply step
  intro child listed
  have newer := rooted.lt_of_mem_childrenOf listed
  exact rooted.induction step child
termination_by tree.size - id

/-- A visit comes past a node and what hangs below it in the order of the list. -/
theorem walks_preorder (rooted : tree.Rooted) (id : Nat) :
    tree.Walks [id] (rooted.preorder id) [] := by
  induction id using rooted.induction with
  | step id ih =>
    rw [preorder_eq]
    apply Walks.visit
    rw [List.append_nil]
    generalize tree.childrenOf id = children at ih
    induction children with
    | nil => exact .stay []
    | cons child children behind =>
      obtain ⟨here, later⟩ := List.forall_mem_cons.mp ih
      exact (here.append children).trans (behind later)

/-- A node is listed as often as the one above it, and once more where the list begins. -/
theorem count_preorder (rooted : tree.Rooted) (node id : Nat) :
    (rooted.preorder id).count node = (if id = node then 1 else 0) +
      (rooted.preorder id).countP (fun above => tree.parentOf node = some above) := by
  induction id using rooted.induction with
  | step id ih =>
    have below : ((tree.childrenOf id).flatMap rooted.preorder).count node =
        (tree.childrenOf id).count node + ((tree.childrenOf id).flatMap rooted.preorder).countP
          (fun above => tree.parentOf node = some above) := by
      generalize tree.childrenOf id = children at ih
      induction children with
      | nil => rfl
      | cons child children behind =>
        obtain ⟨here, later⟩ := List.forall_mem_cons.mp ih
        simp only [List.flatMap_cons, List.count_append, List.countP_append, List.count_cons, here,
          behind later, beq_iff_eq]
        omega
    simp only [preorder_eq, List.count_cons, List.countP_cons, below, rooted.count_childrenOf,
      beq_iff_eq, decide_eq_true_eq]
    omega

/-- Every node is listed once from the root on. -/
theorem count_preorder_zero (rooted : tree.Rooted) {node : Nat} (inside : node < tree.size) :
    (rooted.preorder 0).count node = 1 := by
  induction node using Nat.strongRecOn with
  | ind node ih =>
    rw [count_preorder]
    cases hangs : tree.parentOf node with
    | none =>
      obtain rfl := (rooted.parentOf_eq_none_iff node inside).mp hangs
      simp
    | some above =>
      have older := rooted.parentOf_lt node above hangs
      have once := ih above older (Nat.lt_trans older inside)
      have listed : (rooted.preorder 0).countP (fun other => some above = some other) = 1 := by
        rw [← once, List.count]
        apply List.countP_congr
        intro other _
        simp only [Option.some.injEq, decide_eq_true_eq, beq_iff_eq]
        exact eq_comm
      rw [listed, if_neg (Nat.ne_of_lt (Nat.zero_lt_of_lt older))]

/-- From the root on the nodes of the tree are listed, and nothing else. -/
theorem perm_preorder (rooted : tree.Rooted) (grown : tree.size ≠ 0) :
    (rooted.preorder 0).Perm (List.range tree.size) := by
  rw [List.perm_iff_count]
  intro node
  rw [List.nodup_range.count]
  by_cases inside : node < tree.size
  · rw [rooted.count_preorder_zero inside, if_pos (List.mem_range.mpr inside)]
  · have other : 0 ≠ node := by omega
    rw [count_preorder, parentOf_of_le (Nat.le_of_not_lt inside), if_neg other,
      if_neg (by rwa [List.mem_range])]
    simp

/-- The visit of a whole tree lists it from the root on. -/
theorem depthFirst_eq (rooted : tree.Rooted) (grown : tree.size ≠ 0) :
    tree.depthFirst = rooted.preorder 0 := by
  have enough : (rooted.preorder 0).length ≤ tree.size := by
    have length := (rooted.perm_preorder grown).length_eq
    rw [List.length_range] at length
    exact Nat.le_of_eq length
  rw [depthFirst, root?_eq, if_neg grown]
  exact (rooted.walks_preorder 0).visit_eq enough

end Rooted

/-- There is a node for every addition. -/
@[simp] theorem size_addAll (tree : PartTree π) (additions : List (PartAddition π)) :
    (tree.addAll additions).size = tree.size + additions.length := by
  induction additions generalizing tree with
  | nil => rfl
  | cons addition additions ih =>
    show ((tree.add _ _ _ _).addAll additions).size = _
    rw [ih, size_add, List.length_cons]
    omega

/-- Whatever nodes are added, below nodes that are there or not, they make up one tree: its root
is the first node, which alone hangs below none, and every other node hangs below an older one,
in whose list it stands once and which is the only one that lists it, behind its older siblings.
The depth-first order of the tree is that of the recursion from the root, a node in front of what
hangs below it, child by child; it has every node once, and the visit that gives it leaves no
node waiting at the end. -/
theorem rooted_addAll (additions : List (PartAddition π)) :
    let tree := (empty : PartTree π).addAll additions
    tree.size = additions.length ∧ tree.root? = (if additions.isEmpty then none else some 0) ∧
      ∃ rooted : tree.Rooted,
        tree.depthFirst = tree.root?.toList.flatMap rooted.preorder ∧
          tree.depthFirst.Perm (List.range tree.size) ∧
            tree.Walks tree.root?.toList tree.depthFirst [] := by
  intro tree
  have size : tree.size = additions.length := by simp [tree]
  have rooted : tree.Rooted := Rooted.empty.addAll additions
  refine ⟨size, by simp [root?_eq, size], rooted, ?_⟩
  by_cases fresh : tree.size = 0
  · have nothing : tree.depthFirst = [] := by
      rw [depthFirst, fresh]
      rfl
    rw [nothing, fresh, root?_eq, if_pos fresh]
    exact ⟨rfl, .refl _, .stay []⟩
  · rw [rooted.depthFirst_eq fresh, root?_eq, if_neg fresh]
    exact ⟨by simp, rooted.perm_preorder fresh, rooted.walks_preorder 0⟩

end PartTree

end Arbor
