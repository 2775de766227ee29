import Arbor.Expression.Error
import Arbor.Expression.Function
import Arbor.Expression.Tree

/-!
# The check of expression trees

A tree passes when it is arithmetic, calls known functions with the right number of
arguments and has at most `depthLimit` levels. The nodes that are still to be visited
stand in a list with their levels. A node that passes puts its operands in front of
this list, the last one first, so the first fault that is met is the one of the
rightmost branch.
-/
namespace Arbor.Tree

/-- How many levels a tree may have. -/
def depthLimit : Nat := 256

/-- What is wrong with one node, whatever hangs below it. -/
def checkNode : Tree → Except ExpressionError Unit
  | .number _ | .reference _ | .negation _ | .arithmetic _ _ _ => .ok ()
  | .complement _ | .logical _ _ _ => .error .notArithmetic
  | .call name arguments =>
    match Function.named? name with
    | none => .error (.unknownFunction name)
    | some function =>
      if arguments.length = function.arity then
        .ok ()
      else
        .error (.arity name function.arity arguments.length)

/-- The operands of a node with their level, the last one first. -/
def pending (level : Nat) (tree : Tree) : List (Tree × Nat) :=
  tree.children.reverse.map fun child => (child, level + 1)

/-- Visits the nodes of a list in order, the operands of each before the rest. -/
def checkAll (nodes : List (Tree × Nat)) : Except ExpressionError Unit :=
  match nodes with
  | [] => .ok ()
  | (tree, level) :: rest =>
    if depthLimit < level then
      .error (.tooDeep depthLimit)
    else
      match tree.checkNode with
      | .error fault => .error fault
      | .ok () => checkAll (tree.pending level ++ rest)
termination_by nodeCountOfAll (nodes.map Prod.fst)
decreasing_by
  have below := nodeCountOfAll_children tree
  have same : (tree.pending level).map Prod.fst = tree.children.reverse := by
    simp [pending, Function.comp_def]
  simp only [List.map_append, List.map_cons, nodeCountOfAll_append, nodeCountOfAll, same,
    nodeCountOfAll_reverse]
  omega

/-- Visits a whole tree. -/
def check (tree : Tree) : Except ExpressionError Unit :=
  checkAll [(tree, 1)]

end Arbor.Tree
