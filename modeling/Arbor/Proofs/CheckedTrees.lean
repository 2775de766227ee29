import Arbor.Expression.Basic
import Arbor.Proofs.Results

/-!
# Trees that passed the check

The check takes the nodes of a tree from a list, the rightmost branch first. Whatever the order, a
list is left empty only after all that was in it and all that hangs below it was visited. So in a
tree that passes nothing is wrong with any node: there are no comparisons and no logical operators,
and every call names a function and has as many arguments as this function takes.
-/
namespace Arbor.Tree

/-! ## Nodes -/

mutual

/-- A tree and all trees below it, each in front of what hangs below it. -/
def nodes : Tree → List Tree
  | .number value => [.number value]
  | .reference name => [.reference name]
  | .negation operand => .negation operand :: operand.nodes
  | .arithmetic operation left right =>
    .arithmetic operation left right :: (left.nodes ++ right.nodes)
  | .complement operand => .complement operand :: operand.nodes
  | .logical operator left right => .logical operator left right :: (left.nodes ++ right.nodes)
  | .call name arguments => .call name arguments :: nodesOfAll arguments

/-- The trees of a row and all trees below them. -/
def nodesOfAll : List Tree → List Tree
  | [] => []
  | tree :: rest => tree.nodes ++ nodesOfAll rest

end

/-- What hangs below a tree hangs below one of its children. -/
theorem nodes_eq (tree : Tree) : tree.nodes = tree :: nodesOfAll tree.children := by
  cases tree <;> simp [nodes, children, nodesOfAll]

/-- The nodes of a row are those of its trees. -/
theorem mem_nodesOfAll {node : Tree} {trees : List Tree} :
    node ∈ nodesOfAll trees ↔ ∃ tree ∈ trees, node ∈ tree.nodes := by
  induction trees with
  | nil => simp [nodesOfAll]
  | cons tree rest ih => simp [nodesOfAll, ih]

/-- A node is the tree itself or a node of a child. -/
theorem mem_nodes {node tree : Tree} :
    node ∈ tree.nodes ↔ node = tree ∨ ∃ child ∈ tree.children, node ∈ child.nodes := by
  rw [nodes_eq, List.mem_cons, mem_nodesOfAll]

/-! ## Sound trees -/

/-- Nothing is wrong with any node of a tree. -/
def Sound (tree : Tree) : Prop :=
  ∀ node ∈ tree.nodes, node.checkNode = .ok ()

/-- A tree is sound if nothing is wrong with its root and its children are sound. -/
theorem sound_iff {tree : Tree} :
    tree.Sound ↔ tree.checkNode = .ok () ∧ ∀ child ∈ tree.children, child.Sound := by
  constructor
  · intro sound
    refine ⟨sound tree (mem_nodes.mpr (.inl rfl)), ?_⟩
    intro child below node within
    exact sound node (mem_nodes.mpr (.inr ⟨child, below, within⟩))
  · rintro ⟨root, sound⟩ node within
    rcases mem_nodes.mp within with rfl | ⟨child, below, within⟩
    · exact root
    · exact sound child below node within

variable {name : Text} {left right operand : Tree} {arguments : List Tree}

@[simp] theorem sound_number (value : Float) : (number value).Sound := by
  rw [sound_iff]
  simp [checkNode, children]

@[simp] theorem sound_reference (name : Text) : (reference name).Sound := by
  rw [sound_iff]
  simp [checkNode, children]

@[simp] theorem sound_negation : (negation operand).Sound ↔ operand.Sound := by
  rw [sound_iff]
  simp [checkNode, children]

@[simp] theorem sound_arithmetic {operation : Arithmetic} :
    (arithmetic operation left right).Sound ↔ left.Sound ∧ right.Sound := by
  rw [sound_iff]
  simp [checkNode, children]

@[simp] theorem not_sound_complement : ¬(complement operand).Sound := by
  rw [sound_iff]
  simp [checkNode]

@[simp] theorem not_sound_logical {operator : Logical} : ¬(logical operator left right).Sound := by
  rw [sound_iff]
  simp [checkNode]

/-- Nothing is wrong with a call of a function with as many arguments as it takes. -/
theorem checkNode_call_iff : (call name arguments).checkNode = .ok () ↔
    ∃ function, Function.named? name = some function ∧ arguments.length = function.arity := by
  unfold checkNode
  cases named : Function.named? name with
  | none => simp [named]
  | some function => simp [named]

/-- A call is sound if it is one of a function with as many arguments as it takes and all
arguments are sound. -/
theorem sound_call : (call name arguments).Sound ↔
    (∃ function, Function.named? name = some function ∧ arguments.length = function.arity) ∧
      ∀ argument ∈ arguments, argument.Sound := by
  rw [sound_iff, checkNode_call_iff]
  rfl

/-! ## The check -/

/-- When nothing is left to be visited, everything that was in the list is sound. -/
theorem sound_of_checkAll {nodes : List (Tree × Nat)} (passed : checkAll nodes = .ok ()) :
    ∀ entry ∈ nodes, entry.1.Sound := by
  fun_induction checkAll nodes with
  | case1 => simp
  | case2 => cases passed
  | case3 => cases passed
  | case4 tree level rest _ root ih =>
    have visited := List.forall_mem_append.mp (ih passed)
    refine List.forall_mem_cons.mpr ⟨sound_iff.mpr ⟨root, ?_⟩, visited.2⟩
    intro child below
    exact visited.1 (child, level + 1) (by simpa [pending] using below)

/-- A tree that passes is sound. -/
theorem sound_of_check {tree : Tree} (passed : tree.check = .ok ()) : tree.Sound :=
  sound_of_checkAll passed (tree, 1) List.mem_cons_self

end Arbor.Tree

namespace Arbor.Expression

/-- What is compiled was read to the end of a text that is not blank, and passed the check. -/
theorem compile_eq_ok_iff {text : Text} {expression : Expression} :
    compile text = .ok expression ↔ Text.isAllBlank text = false ∧ expression.source = text ∧
      Tree.read text = .ok (expression.tree, []) ∧ expression.tree.check = .ok () := by
  unfold compile
  constructor
  · intro compiled
    split at compiled
    · cases compiled
    · next blank =>
      split at compiled
      · cases compiled
      · next tree read =>
        obtain ⟨_, passed, rfl⟩ := map_eq_ok_iff.mp compiled
        exact ⟨by simpa using blank, rfl, read, passed⟩
      · cases compiled
  · obtain ⟨source, tree⟩ := expression
    rintro ⟨solid, rfl, read, passed⟩
    simp only [solid, read, Bool.false_eq_true, if_false]
    exact map_eq_ok_iff.mpr ⟨(), passed, rfl⟩

/-- An expression keeps the text that it was compiled from. -/
theorem source_of_compile {text : Text} {expression : Expression}
    (compiled : compile text = .ok expression) : expression.source = text :=
  (compile_eq_ok_iff.mp compiled).2.1

/-- The tree of a compiled expression is sound. -/
theorem sound_of_compile {text : Text} {expression : Expression}
    (compiled : compile text = .ok expression) : expression.tree.Sound :=
  Tree.sound_of_check (compile_eq_ok_iff.mp compiled).2.2.2

end Arbor.Expression
