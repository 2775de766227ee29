import Arbor.Guard
import Arbor.Grammar.Basic

/-!
# What takes the place of a symbol

A symbol without a parameter list is replaced by the body of the only rule whose key
begins with it, as the body stands, and by itself if no key does. The arguments of a
symbol with a list are evaluated first, with nothing but the constants. If exactly one
key begins with the symbol, a rule of this key is instantiated with the arguments as the
values of its parameters: the only one, or of several the first whose guard holds.
Otherwise the symbol stays, and its arguments are replaced by their values.
-/
namespace Arbor

/-- Why a sequence cannot be rewritten. Positions are byte offsets of the sequence. -/
inductive DerivationError where
  /-- A rule of the grammar does not compile. -/
  | grammar (fault : RuleError)
  /-- The parameter list that opens at this position does not end. -/
  | brackets (position : Nat)
  /-- The argument that begins at this position has no value. -/
  | argument (position : Nat) (fault : ExpressionError)
  /-- A symbol without parameters has several rules. -/
  | ambiguousSymbol (symbol : Char) (position : Nat)
  /-- A key has no rules. -/
  | emptyRuleList (key : Text)
  /-- One of several rules of a key has no guard. -/
  | unguardedOverload (key : Text)
  /-- No guard of the rules of a key holds. -/
  | noGuardMatched (key : Text)
  /-- A symbol has another number of arguments than its key has parameters. -/
  | arityMismatch (key : Text) (expected found : Nat)
  /-- A slot of the rule that was chosen has no value. -/
  | body (key : Text) (fault : ExpressionError)
  deriving DecidableEq, Repr

/-- The wording of a fault. -/
def DerivationError.message : DerivationError → String
  | .grammar fault => s!"grammar failed to compile: {fault.message}"
  | .brackets position => s!"unbalanced brackets at position {position}"
  | .argument position fault =>
    s!"argument at position {position} failed to evaluate: {fault.message}"
  | .ambiguousSymbol symbol position =>
    s!"symbol '{symbol}' at position {position} matches several rules without parameters"
  | .emptyRuleList key => s!"key '{String.ofList key}' has an empty rule list"
  | .unguardedOverload key => s!"overloaded rule '{String.ofList key}' has no guard"
  | .noGuardMatched key => s!"no guard of any rule '{String.ofList key}' matched"
  | .arityMismatch key expected found =>
    s!"rule '{String.ofList key}' expects {expected} parameter(s), got {found}"
  | .body key fault => s!"rule '{String.ofList key}' body failed to evaluate: {fault.message}"

/-- What a fault of brackets means for a list that opens at `opening`. -/
def DerivationError.ofBrackets (opening : Nat) : BracketError → DerivationError
  | .unexpectedClose position => .brackets position
  | .unclosed => .brackets opening

namespace Replacement

/-- The values of arguments that stand one after the other from `position` on, each
compiled and evaluated before the next one is looked at. -/
def evaluatePieces (constants : Constants) (position : Nat) :
    List Text → Attempt DerivationError (List Float)
  | [] => pure []
  | piece :: pieces => do
    let value ← (Expression.evaluateText piece ⟨[], constants⟩).mapError (.argument position)
    let values ← evaluatePieces constants (position + Text.byteLength piece + 1) pieces
    pure (value :: values)

/-- The values of the arguments of a list whose contents begin at `position`. -/
def evaluateArguments (constants : Constants) (position : Nat) (contents : Text) :
    Attempt DerivationError (List Float) :=
  match ParameterList.arguments position contents with
  | .error fault => throw (.ofBrackets position fault)
  | .ok pieces => evaluatePieces constants position pieces

/-- The first rule whose guard holds. A rule without a guard is a fault as soon as its
turn comes. -/
def select (key : Text) (scope : Scope) : List Rule → Attempt DerivationError Rule
  | [] => throw (.noGuardMatched key)
  | rule :: rules =>
    if rule.isGuarded then do
      if ← ExceptT.lift (Guard.textHolds rule.guard scope) then
        pure rule
      else
        select key scope rules
    else
      throw (.unguardedOverload key)

/-- What the rules of a key make of the arguments of a symbol. -/
def apply (constants : Constants) (key : Text) (rules : List Rule) (actuals : List Float) :
    Attempt DerivationError Text :=
  match rules with
  | [] => throw (.emptyRuleList key)
  | first :: others => do
    let formals := first.formals
    if formals.length = actuals.length then
      let scope : Scope := ⟨formals.zip actuals, constants⟩
      let rule ← if others.isEmpty then pure first else select key scope rules
      (rule.instantiate scope).mapError (.body key)
    else
      throw (.arityMismatch key formals.length actuals.length)

/-- A symbol with its arguments as numbers. -/
def flatten (symbol : Char) (actuals : List Float) : Text :=
  symbol :: '(' :: (Text.joinWith ',' (actuals.map formatNumber) ++ [')'])

/-- What takes the place of a symbol with a parameter list whose contents begin at
`position`. -/
def ofSymbolWithList (grammar : Grammar) (constants : Constants) (symbol : Char)
    (position : Nat) (contents : Text) : Attempt DerivationError Text := do
  let actuals ← evaluateArguments constants position contents
  match grammar.candidates symbol with
  | [(key, rules)] => apply constants key rules actuals
  | _ => pure (flatten symbol actuals)

/-- What takes the place of a symbol without a parameter list. -/
def ofSymbol (grammar : Grammar) (symbol : Char) (position : Nat) :
    Except DerivationError Text :=
  match grammar.candidates symbol with
  | [] => .ok [symbol]
  | [(_, [rule])] => .ok rule.body
  | [(key, [])] => .error (.emptyRuleList key)
  | _ => .error (.ambiguousSymbol symbol position)

end Replacement

end Arbor
