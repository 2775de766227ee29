import Arbor.Expression.Basic

/-!
# Guards

A guard is a conjunction of comparisons joined by ampersands. Each conjunct compares
two expressions by one of five relations. There is no disjunction, no negation and no
grouping of comparisons.

The relation of a conjunct is read off the signs that occur anywhere in it; the
conjunct then has to fall into exactly two parts at the symbol of this relation. A
guard holds when all its comparisons hold, and the comparisons behind the first
one that does not hold are not evaluated. A guard that cannot be read or evaluated does
not hold.
-/
namespace Arbor

/-- How two numbers are compared. -/
inductive Relation where
  | equal
  | less
  | greater
  | lessOrEqual
  | greaterOrEqual
  deriving DecidableEq, Repr

namespace Relation

/-- The relation whose signs occur in a conjunct. An equals sign goes with a sign of
order, and with the lesser one if both occur. -/
def detect (conjunct : Text) : Option Relation :=
  if conjunct.contains '=' then
    some (if conjunct.contains '<' then .lessOrEqual
      else if conjunct.contains '>' then .greaterOrEqual
      else .equal)
  else if conjunct.contains '<' then
    some .less
  else if conjunct.contains '>' then
    some .greater
  else
    none

/-- How a relation is written. -/
def symbol : Relation → Text
  | .equal => ['=']
  | .less => ['<']
  | .greater => ['>']
  | .lessOrEqual => ['<', '=']
  | .greaterOrEqual => ['>', '=']

/-- Whether two numbers are in the relation. -/
def holds : Relation → Float → Float → Bool
  | .equal, a, b => a == b
  | .less, a, b => a < b
  | .greater, a, b => b < a
  | .lessOrEqual, a, b => a ≤ b
  | .greaterOrEqual, a, b => b ≤ a

end Relation

/-- Why a guard cannot be read. -/
inductive GuardError where
  /-- A conjunct does not have exactly one relation. -/
  | malformed (conjunct : Text)
  /-- A side of a comparison is not an expression. -/
  | operand (fault : ExpressionError)
  deriving DecidableEq, Repr

/-- The wording of a fault. -/
def GuardError.message : GuardError → String
  | .malformed conjunct => s!"malformed guard conjunct '{String.ofList conjunct}'"
  | .operand fault => s!"guard operand failed to compile: {fault.message}"

/-- Two expressions and the relation asked of their values. -/
structure Comparison where
  lhs : Expression
  relation : Relation
  rhs : Expression

namespace Comparison

/-- Reads one conjunct. -/
def parse (conjunct : Text) : Except GuardError Comparison :=
  match Relation.detect conjunct with
  | none => .error (.malformed conjunct)
  | some relation =>
    match Text.splitOn relation.symbol conjunct with
    | [lhs, rhs] => do
      let lhs ← (Expression.compile lhs).mapError .operand
      let rhs ← (Expression.compile rhs).mapError .operand
      pure ⟨lhs, relation, rhs⟩
    | _ => .error (.malformed conjunct)

/-- Whether the values of both sides are in the relation. -/
def holds (comparison : Comparison) (scope : Scope) : Attempt ExpressionError Bool := do
  let lhs ← comparison.lhs.evaluate scope
  let rhs ← comparison.rhs.evaluate scope
  pure (comparison.relation.holds lhs rhs)

end Comparison

/-- A guard by its comparisons in order. -/
structure Guard where
  comparisons : List Comparison

namespace Guard

/-- Reads a whole guard. -/
def parse (text : Text) : Except GuardError Guard :=
  ((Text.splitOn ['&'] text).mapM Comparison.parse).map Guard.mk

/-- Whether all comparisons hold, up to the first one that decides. -/
def allHold (scope : Scope) : List Comparison → Attempt ExpressionError Bool
  | [] => pure true
  | comparison :: rest => do
    if ← comparison.holds scope then
      allHold scope rest
    else
      pure false

/-- Whether a guard holds in a scope. -/
def holds (guard : Guard) (scope : Scope) : Attempt ExpressionError Bool :=
  allHold scope guard.comparisons

/-- Whether the guard with this text holds in a scope. One with a fault does not. -/
def textHolds (text : Text) (scope : Scope) : Draw Bool :=
  match parse text with
  | .error _ => pure false
  | .ok guard => do
    match ← (guard.holds scope).run with
    | .ok verdict => pure verdict
    | .error _ => pure false

end Guard

end Arbor
