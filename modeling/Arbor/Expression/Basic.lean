import Arbor.Constants
import Arbor.Expression.Check
import Arbor.Expression.Reader

/-!
# Arithmetic expressions

An expression is a text with the tree that was read from it. Compiling reads the whole
text and checks the tree; names are left open, because the same expression is evaluated
in many scopes. Evaluation goes from left to right, so the numbers that are drawn for
`rnd` come in reading order, and only a finite result counts.

A fault of an evaluation does not take back the words that were drawn before it.
-/
namespace Arbor

/-- A text and the tree it was read as. -/
structure Expression where
  source : Text
  tree : Tree

/-- A computation that may draw and may fail with a fault. -/
abbrev Attempt (ε : Type) := ExceptT ε Draw

namespace Attempt

/-- A computation that does not draw. -/
def ofExcept {ε α : Type} (result : Except ε α) : Attempt ε α :=
  ExceptT.mk (pure result)

/-- The same computation with another wording of its faults. -/
def mapError {ε δ α : Type} (f : ε → δ) (attempt : Attempt ε α) : Attempt δ α :=
  ExceptT.mk do
    match ← attempt.run with
    | .ok value => pure (.ok value)
    | .error fault => pure (.error (f fault))

end Attempt

/-- The value of an operation. -/
def Arithmetic.apply : Arithmetic → Float → Float → Float
  | .sum, a, b => a + b
  | .difference, a, b => a - b
  | .product, a, b => a * b
  | .quotient, a, b => a / b
  | .power, a, b => Float.pow a b

namespace Tree

mutual

/-- The value of a tree in a scope. -/
def evaluate (scope : Scope) : Tree → Attempt ExpressionError Float
  | .number value => pure value
  | .reference name =>
    match scope.lookup name with
    | some value => pure value
    | none => throw (.unknownName name)
  | .negation operand => do
    let value ← operand.evaluate scope
    pure (-value)
  | .arithmetic operation left right => do
    let a ← left.evaluate scope
    let b ← right.evaluate scope
    pure (operation.apply a b)
  | .complement _ | .logical _ _ _ => throw .notArithmetic
  | .call name arguments =>
    match Function.named? name with
    | none => throw (.unknownFunction name)
    | some function => do
      let values ← evaluateAll scope arguments
      match function.applyTo? values with
      | some result => ExceptT.lift result
      | none => throw (.arity name function.arity values.length)

/-- The values of a row of trees from left to right. -/
def evaluateAll (scope : Scope) : List Tree → Attempt ExpressionError (List Float)
  | [] => pure []
  | tree :: rest => do
    let value ← tree.evaluate scope
    let values ← evaluateAll scope rest
    pure (value :: values)

end

end Tree

namespace Expression

/-- What a stop of the reader means for the whole text. -/
def faultOfStop (text : Text) : Stop → ExpressionError
  | .tooLarge rest => .tooLarge (Text.byteLength text - Text.byteLength rest)
  | .unexpected rest =>
    if Text.isAllBlank rest then
      .unexpectedEnd
    else
      .unexpectedToken (Text.byteLength text - Text.byteLength rest)

/-- Reads and checks an expression that takes up the whole text. -/
def compile (text : Text) : Except ExpressionError Expression :=
  if Text.isAllBlank text then
    .error .empty
  else
    match Tree.read text with
    | .error stop => .error (faultOfStop text stop)
    | .ok (tree, []) => tree.check.map fun _ => ⟨text, tree⟩
    | .ok (_, rest) => .error (.unexpectedToken (Text.byteLength text - Text.byteLength rest))

/-- The value of an expression in a scope. -/
def evaluate (expression : Expression) (scope : Scope) : Attempt ExpressionError Float := do
  let value ← expression.tree.evaluate scope
  if value.isFinite then
    pure value
  else
    throw (.nonFinite expression.source)

/-- The names that a scope has to know, in ascending order and each once. -/
def freeNames (expression : Expression) : List Text :=
  (Table.ofList (expression.tree.names.map fun name => (name, ()))).keys

/-- Compiles a text and evaluates it at once. -/
def evaluateText (text : Text) (scope : Scope) : Attempt ExpressionError Float :=
  match compile text with
  | .error fault => throw fault
  | .ok expression => expression.evaluate scope

end Expression

end Arbor
