import Arbor.ParameterList
import Arbor.Text.Blank
import Arbor.Expression.Basic

/-!
# Rules

A rule replaces a symbol by a body. Its key is the symbol with the names of its
parameters, as in `D(x,y)`, and its body is a text whose slots, the arguments of its
outermost brackets, are expressions over these names. The texts of a rule are all that
is kept of it for later; compiling them finds the slots and compiles their expressions.
A rule that was only loaded has no slots yet, and its body is then copied as it stands.

An instance of a rule is its body with the value of its expression in the place of each
slot. The text between the slots is never touched.
-/
namespace Arbor

/-- Why texts make no rule, or why a rule cannot be changed. -/
inductive RuleError where
  /-- The brackets of the body do not match. -/
  | brackets (fault : BracketError)
  /-- A slot of the body is not an expression. -/
  | slot (key : Text) (index : Nat) (fault : ExpressionError)
  /-- The key is empty. -/
  | missingKey
  /-- There is no rule with this key. -/
  | unknownKey (key : Text)
  /-- The key has no rule with this number. -/
  | indexOutOfRange (key : Text) (index : Nat)
  /-- The text does not define a rule. -/
  | definition (text : Text)
  deriving DecidableEq, Repr

/-- The wording of a fault. -/
def RuleError.message : RuleError → String
  | .brackets fault => fault.message
  | .slot key index fault =>
    s!"rule '{String.ofList key}': slot {index} failed to compile: {fault.message}"
  | .missingKey => "rule key is empty"
  | .unknownKey key => s!"no rules stored under key '{String.ofList key}'"
  | .indexOutOfRange key index =>
    s!"rule index {index} out of range for key '{String.ofList key}'"
  | .definition text => s!"malformed rule definition: '{String.ofList text}'"

/-- The texts of a production. -/
structure RuleText where
  key : Text
  body : Text
  /-- The condition under which an overload applies; empty for none. -/
  guard : Text
  deriving DecidableEq, Repr

/-- A place of a body that is filled with the value of an expression. -/
structure Slot where
  span : Span
  expression : Expression

/-- A production. -/
structure Rule extends RuleText where
  /-- The slots of the body from left to right, none if the rule is not compiled. -/
  slots : List Slot

namespace RuleText

/-- A rule that is not compiled. -/
def uncompiled (text : RuleText) : Rule :=
  { text with slots := [] }

/-- Compiles the expressions at the given spans of the body, the first of which has the
number `index`. -/
def compileSlots (text : RuleText) (index : Nat) : List Span → Except RuleError (List Slot)
  | [] => .ok []
  | span :: spans =>
    match Expression.compile (Text.slice text.body span) with
    | .error fault => .error (.slot text.key index fault)
    | .ok expression => (text.compileSlots (index + 1) spans).map (⟨span, expression⟩ :: ·)

/-- Compiles a rule. -/
def compile (text : RuleText) : Except RuleError Rule :=
  match ParameterList.slotSpans text.body with
  | .error fault => .error (.brackets fault)
  | .ok spans => (text.compileSlots 0 spans).map fun slots => { text with slots }

/-- The texts without any blank. -/
def withoutBlanks (text : RuleText) : RuleText :=
  ⟨Text.withoutBlanks text.key, Text.withoutBlanks text.body, Text.withoutBlanks text.guard⟩

end RuleText

namespace Rule

/-- Compiles a rule again from its texts. -/
def recompile (rule : Rule) : Except RuleError Rule :=
  rule.toRuleText.compile

/-- The character that the key begins with. -/
def symbol? (rule : Rule) : Option Char :=
  rule.key.head?

/-- The names of the parameters of a key: what stands between its first opening and its
last closing bracket, cut at the commas; none if nothing stands there. -/
def formalNames (key : Text) : List Text :=
  match key.dropWhile (· != '(') with
  | [] => []
  | _ :: behind =>
    match behind.reverse.dropWhile (· != ')') with
    | [] => []
    | _ :: names => if names.isEmpty then [] else Text.splitOn [','] names.reverse

/-- The names of the parameters of a rule. -/
def formals (rule : Rule) : List Text :=
  formalNames rule.key

/-- Whether a rule has a guard. -/
def isGuarded (rule : Rule) : Bool :=
  !rule.guard.isEmpty

/-- Fills the slots of a text of which the first `position` bytes are done and `rest` is
left. -/
def fillSlots (scope : Scope) (position : Nat) (rest : Text) :
    List Slot → Attempt ExpressionError Text
  | [] => pure rest
  | slot :: slots => do
    let value ← slot.expression.evaluate scope
    let behind ← fillSlots scope slot.span.stop
      (Text.dropBytes (slot.span.stop - position) rest) slots
    pure (Text.takeBytes (slot.span.start - position) rest ++ formatNumber value ++ behind)

/-- The body with the values of its slots. -/
def instantiate (rule : Rule) (scope : Scope) : Attempt ExpressionError Text :=
  fillSlots scope 0 rule.body rule.slots

end Rule

end Arbor
