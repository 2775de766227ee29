import Arbor.Text.Basic

/-!
# Faults of expressions

An expression is refused while it is read, while its tree is checked, or while it is
evaluated. Positions are byte offsets of the text of the expression.
-/
namespace Arbor

/-- Why an expression has no value. -/
inductive ExpressionError where
  /-- The text is blank. -/
  | empty
  /-- The text ends where it has to go on. -/
  | unexpectedEnd
  /-- The text cannot go on as it does from this position. -/
  | unexpectedToken (position : Nat)
  /-- A limit of the grammar was reached at this position. -/
  | tooLarge (position : Nat)
  /-- The tree has more levels than allowed. -/
  | tooDeep (limit : Nat)
  /-- The tree has a comparison or a logical operator. -/
  | notArithmetic
  /-- A name has no value in the scope. -/
  | unknownName (name : Text)
  /-- There is no function with this name. -/
  | unknownFunction (name : Text)
  /-- A function is called with a wrong number of arguments. -/
  | arity (function : Text) (expected found : Nat)
  /-- The value of the expression with this text is not finite. -/
  | nonFinite (source : Text)
  deriving DecidableEq, Repr

/-- The wording of a fault. -/
def ExpressionError.message : ExpressionError → String
  | .empty => "empty expression"
  | .unexpectedEnd => "unexpected end of expression"
  | .unexpectedToken position => s!"unexpected token at {position}"
  | .tooLarge position => s!"expression too large to parse at {position}"
  | .tooDeep limit => s!"expression nests deeper than {limit} levels"
  | .notArithmetic => "comparison and logical operators are not allowed in arithmetic"
  | .unknownName name => s!"unknown name: {String.ofList name}"
  | .unknownFunction name => s!"unknown function: {String.ofList name}"
  | .arity function expected found =>
    s!"function {String.ofList function} takes {expected} argument(s), got {found}"
  | .nonFinite source => s!"expression '{String.ofList source}' did not produce a finite number"

end Arbor
