import Arbor.Text.Basic

/-!
# Expression trees

The grammar of expressions has arithmetic, comparisons and logical operators. Only
arithmetic can be evaluated to a number, so `check` refuses the rest, together with
calls of unknown functions, calls with a wrong number of arguments and trees that are
too deep to be evaluated safely.

`check` keeps the nodes that are still to be visited in a list and takes the last
operand of a node first; this order decides which of several faults is reported.
-/
namespace Arbor

/-- The operations on two numbers that have a symbol. -/
inductive Arithmetic where
  | sum
  | difference
  | product
  | quotient
  | power
  deriving DecidableEq, Repr

/-- The operators whose results are truth values. -/
inductive Logical where
  | equal
  | different
  | less
  | lessOrEqual
  | greater
  | greaterOrEqual
  | both
  | either
  deriving DecidableEq, Repr

/-- What the grammar of expressions reads. -/
inductive Tree where
  | number (value : Float)
  | reference (name : Text)
  | negation (operand : Tree)
  | arithmetic (operation : Arithmetic) (left right : Tree)
  | complement (operand : Tree)
  | logical (operator : Logical) (left right : Tree)
  | call (function : Text) (arguments : List Tree)

namespace Tree

/-- The nodes directly below a node, from left to right. -/
def children : Tree → List Tree
  | .number _ | .reference _ => []
  | .negation operand | .complement operand => [operand]
  | .arithmetic _ left right | .logical _ left right => [left, right]
  | .call _ arguments => arguments

mutual

/-- The names in a tree in reading order, each as often as it occurs. Names of functions
are not among them. -/
def names : Tree → List Text
  | .number _ => []
  | .reference name => [name]
  | .negation operand | .complement operand => operand.names
  | .arithmetic _ left right | .logical _ left right => left.names ++ right.names
  | .call _ arguments => namesOfAll arguments

/-- The names in a row of trees in reading order. -/
def namesOfAll : List Tree → List Text
  | [] => []
  | tree :: rest => tree.names ++ namesOfAll rest

end

mutual

/-- The number of nodes. -/
def nodeCount : Tree → Nat
  | .number _ | .reference _ => 1
  | .negation operand | .complement operand => operand.nodeCount + 1
  | .arithmetic _ left right | .logical _ left right => left.nodeCount + right.nodeCount + 1
  | .call _ arguments => nodeCountOfAll arguments + 1

/-- The number of nodes of a row of trees. -/
def nodeCountOfAll : List Tree → Nat
  | [] => 0
  | tree :: rest => tree.nodeCount + nodeCountOfAll rest

end

theorem nodeCountOfAll_append (left right : List Tree) :
    nodeCountOfAll (left ++ right) = nodeCountOfAll left + nodeCountOfAll right := by
  induction left with
  | nil => simp [nodeCountOfAll]
  | cons tree rest ih => simp only [List.cons_append, nodeCountOfAll, ih]; omega

theorem nodeCountOfAll_reverse (trees : List Tree) :
    nodeCountOfAll trees.reverse = nodeCountOfAll trees := by
  induction trees with
  | nil => rfl
  | cons tree rest ih =>
    simp only [List.reverse_cons, nodeCountOfAll_append, nodeCountOfAll, ih]; omega

/-- A node is one more than what hangs below it. -/
theorem nodeCountOfAll_children (tree : Tree) :
    nodeCountOfAll tree.children + 1 = tree.nodeCount := by
  cases tree <;> simp [children, nodeCountOfAll, nodeCount]

end Tree

end Arbor
