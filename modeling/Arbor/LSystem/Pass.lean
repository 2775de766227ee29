import Arbor.LSystem.Replacement
import Arbor.Text.Builder

/-!
# Passes over a sequence

A sequence is a row of symbols, each of which may carry a parameter list in round
brackets. A pass goes through it once from left to right. In every step it takes one
symbol with its list, if it has one, and writes what takes its place; text that was
written is not read again in the same pass.

A failed step has no next state, so cursor and output stay where they were.
-/
namespace Arbor

/-- The part of the input that a step took and the part of the output that it wrote. -/
structure Step where
  consumed : Span
  emitted : Span
  deriving DecidableEq, Repr

/-- A sequence in the middle of being rewritten. -/
structure Pass where
  grammar : Grammar
  constants : Constants
  /-- The byte offset of the next symbol. -/
  cursor : Nat
  /-- The input from the next symbol on. -/
  rest : Text
  output : TextBuilder

namespace Pass

/-- In front of the first symbol. -/
def start (grammar : Grammar) (constants : Constants) (input : Text) : Pass :=
  ⟨grammar, constants, 0, input, .empty⟩

/-- The state after a step that took the input up to `cursor` and wrote a text. -/
def advance (pass : Pass) (cursor : Nat) (rest text : Text) : Step × Pass :=
  let output := pass.output.append text
  (⟨⟨pass.cursor, cursor⟩, ⟨pass.output.bytes, output.bytes⟩⟩,
    { pass with cursor, rest, output })

/-- Rewrites the next symbol. At the end of the input there is no step. -/
def step (pass : Pass) : Attempt DerivationError (Option (Step × Pass)) :=
  match pass.rest with
  | [] => pure none
  | symbol :: behind =>
    let opening := pass.cursor + symbol.utf8Size
    match ParameterList.take opening behind with
    | .error fault => throw (.ofBrackets opening fault)
    | .ok (some contents, after) => do
      let text ← Replacement.ofSymbolWithList pass.grammar pass.constants symbol (opening + 1)
        contents
      pure (some (pass.advance (opening + Text.byteLength contents + 2) after text))
    | .ok (none, after) => do
      let text ← Attempt.ofExcept (Replacement.ofSymbol pass.grammar symbol pass.cursor)
      pure (some (pass.advance opening after text))

/-- Steps until the input is used up, at most `count` times. -/
def run : Nat → Pass → Attempt DerivationError Pass
  | 0, pass => pure pass
  | count + 1, pass => do
    match ← pass.step with
    | none => pure pass
    | some (_, next) => run count next

/-- How a row of steps ends. -/
inductive Ending where
  /-- The input is used up. -/
  | done
  /-- A step failed. -/
  | failed (fault : DerivationError)
  /-- A step had to draw a number that does not exist. -/
  | impossible
  deriving DecidableEq, Repr

/-- The successful steps up to the end, how they end, and the state they lead to; at most
`count` of them. -/
def trace : Nat → Pass → Generator → List Step × Ending × Pass
  | 0, pass, _ => ([], .done, pass)
  | count + 1, pass, generator =>
    match pass.step.run.run generator with
    | none => ([], .impossible, pass)
    | some (.error fault, _) => ([], .failed fault, pass)
    | some (.ok none, _) => ([], .done, pass)
    | some (.ok (some (step, next)), generator) =>
      let (steps, last) := trace count next generator
      (step :: steps, last)

/-- The steps of a whole pass. Each takes at least one character, so there are no more
of them than the input has characters. -/
def traceAll (pass : Pass) (generator : Generator) : List Step × Ending × Pass :=
  trace (pass.rest.length + 1) pass generator

end Pass

/-- Rewrites every symbol of a sequence once. -/
def Grammar.rewrite (grammar : Grammar) (constants : Constants) (sequence : Text) :
    Attempt DerivationError Text := do
  let pass ← (Pass.start grammar constants sequence).run sequence.length
  pure pass.output.text

end Arbor
