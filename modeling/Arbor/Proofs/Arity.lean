import Arbor.Proofs.Maintenance
import Arbor.Proofs.PassSteps
import Arbor.Proofs.Shapes

/-!
# Arguments and parameters

If the body of a rule takes the place of a token with a list, then the rule has one parameter for
each argument, and the slots of the body see the arguments by the names of the parameters; a token
with another number of arguments takes no body and is a fault. If the token has no list, then the
body of the only rule is copied as it stands, with the names of the parameters in it, and how
many of them there are is not looked at.

All rules of a key have the key itself, as in every grammar that was made from nothing by changes,
so the names of the first rule are those of all of them.
-/
namespace Arbor

open Text

/-- The number of arguments that a token carries. -/
def Token.arity (token : Token) : Nat :=
  (token.contents?.map ParameterList.count).getD 0

namespace Grammar

open Replacement

variable {grammar : Grammar} {constants : Constants} {token : Token} {position : Nat}

/-- The rules of the only candidate for a symbol are kept in order. -/
theorem InOrder.keptUnder_of_candidates (held : grammar.InOrder) {symbol : Char} {key : Text}
    {rules : List Rule} (listed : grammar.candidates symbol = [(key, rules)]) :
    Rule.KeptUnder key rules := by
  have among : (key, rules) ∈ grammar.candidates symbol := by
    rw [listed]
    exact List.mem_singleton_self _
  exact held _ (mem_candidates_iff.mp among).1

/-- A rule replaces a token without a list by its body as it stands, and a token with a list if
there is one argument for each parameter. -/
theorem InOrder.arity_of_originOf (held : grammar.InOrder) (closed : token.Closed)
    {origin : Origin} {rule : Rule} {generator after : Generator}
    (given : (grammar.originOf constants position token).Gives generator origin after)
    (written : origin.rule? = some rule) :
    (token.contents? = none ∧ origin = .copied rule ∧
        grammar.candidates token.symbol = [(rule.key, [rule])]) ∨
      (token.contents? ≠ none ∧ token.arity = (Rule.formalNames rule.key).length ∧
        ∃ contents actuals between, token.contents? = some contents ∧
          (evaluateArguments constants (position + token.symbol.utf8Size + 1) contents).Gives
            generator actuals between ∧
            actuals.length = (Rule.formalNames rule.key).length ∧
              origin = .instantiated rule.key rule
                ⟨(Rule.formalNames rule.key).zip actuals, constants⟩) := by
  obtain ⟨symbol, contents?⟩ := token
  cases contents? with
  | none =>
    obtain ⟨given, _⟩ := Attempt.gives_ofExcept_iff.mp given
    obtain ⟨rfl, key, listed⟩ := of_originOfSymbol given written
    obtain ⟨rfl, _⟩ :=
      (held.keptUnder_of_candidates listed).compiled rule (List.mem_singleton_self _)
    exact .inl ⟨rfl, rfl, listed⟩
  | some contents =>
    obtain ⟨key, rules, first, actuals, between, listed, heads, among, evaluated, right, rfl⟩ :=
      of_originOfSymbolWithList given written
    have kept := (held.keptUnder_of_candidates listed).compiled
    obtain rfl : rule.key = key := (kept rule among).1
    rw [Rule.formals, (kept first heads).1] at right
    have counted : actuals.length = ParameterList.count contents :=
      length_of_evaluateArguments closed evaluated
    refine .inr ⟨by simp, counted.symm.trans right.symm, contents, actuals, between, rfl, evaluated,
      right.symm, ?_⟩
    rw [Rule.formals, (kept first heads).1]

/-- A token with a list of another length than its only key has parameters is a fault. -/
theorem InOrder.rewriteToken_of_arity_ne (held : grammar.InOrder) {symbol : Char}
    {contents key : Text} {rules : List Rule} (closed : Balanced contents)
    (listed : grammar.candidates symbol = [(key, rules)])
    (other : ParameterList.count contents ≠ (Rule.formalNames key).length) :
    grammar.rewriteToken constants position ⟨symbol, some contents⟩ = (do
      let _ ← evaluateArguments constants (position + symbol.utf8Size + 1) contents
      throw (.arityMismatch key (Rule.formalNames key).length (ParameterList.count contents))) := by
  obtain ⟨_, _, some, compiled⟩ := held.keptUnder_of_candidates listed
  have kept : ∀ rule ∈ rules, rule.key = key := fun rule among => (compiled rule among).1
  simp only [rewriteToken, ofSymbolWithList, listed]
  refine Attempt.bind_congr_of_gives fun generator actuals after evaluated => ?_
  have counted := length_of_evaluateArguments closed evaluated
  rw [apply_eq_choose_bind, choose_of_length_ne some kept (by rwa [counted]), counted]
  rfl

end Grammar

namespace Pass

/-- A rule is put in the place of a symbol with a list only if the list has one argument for each
parameter of the rule. The grammar is made from nothing by changes, and the pass stands anywhere
in front of a token.

The step writes the text that comes from the origin of the token. If this is the body of a rule,
then either the token has a list with as many arguments as the key of the rule names parameters,
and the values of the arguments are bound to these names, or the token has no list, and the rule
is the only one of the only key that begins with the symbol, of which the body is copied as it
stands. A token with a list of another length, whose symbol begins one key only, is never
replaced: the step fails once the arguments have values, if not before. -/
theorem arity_of_step (changes : List GrammarChange) {pass : Pass}
    (built : pass.grammar = Grammar.empty.changeAll changes) {token : Token} {behind : Text}
    (found : Token.first? pass.rest = some (token, behind)) :
    pass.step = (do
        let origin ← pass.grammar.originOf pass.constants pass.cursor token
        let text ← origin.text
        pure (some (pass.advance (pass.cursor + byteLength token.text) behind text))) ∧
      (∀ generator origin after rule,
        (pass.grammar.originOf pass.constants pass.cursor token).Gives generator origin after →
          origin.rule? = some rule →
            (token.contents? ≠ none ∧ token.arity = (Rule.formalNames rule.key).length ∧
              ∃ contents actuals between, token.contents? = some contents ∧
                (Replacement.evaluateArguments pass.constants
                  (pass.cursor + token.symbol.utf8Size + 1) contents).Gives generator actuals
                    between ∧
                  actuals.length = (Rule.formalNames rule.key).length ∧
                    origin = .instantiated rule.key rule
                      ⟨(Rule.formalNames rule.key).zip actuals, pass.constants⟩) ∨
            (token.contents? = none ∧ origin = .copied rule ∧
              pass.grammar.candidates token.symbol = [(rule.key, [rule])])) ∧
      ∀ contents key rules, token.contents? = some contents →
        pass.grammar.candidates token.symbol = [(key, rules)] →
          token.arity ≠ (Rule.formalNames key).length →
            pass.step = (do
              let _ ← Replacement.evaluateArguments pass.constants
                (pass.cursor + token.symbol.utf8Size + 1) contents
              throw (.arityMismatch key (Rule.formalNames key).length token.arity)) := by
  have held : pass.grammar.InOrder := by
    rw [built]
    exact Grammar.inOrder_empty.changeAll changes
  have fits := (Token.first?_eq_some_iff.mp found).2
  refine ⟨?_, ?_, ?_⟩
  · rw [step_of_some found, Grammar.rewriteToken_eq_originOf_bind, bind_assoc]
  · intro generator origin after rule given written
    exact (held.arity_of_originOf fits.closed given written).symm
  · intro contents key rules list listed other
    obtain ⟨symbol, contents?⟩ := token
    obtain rfl : contents? = some contents := list
    rw [step_of_some found, held.rewriteToken_of_arity_ne fits listed other, bind_assoc]
    rfl

/-- The grammar with one rule, by which `B` with an argument takes the place of `A` with it. -/
def offshoot : Grammar :=
  Grammar.empty.changeAll [.add "A(x)".toList "B(x)".toList []]

/-- The rule of this grammar is compiled from the texts that were added. -/
theorem exists_candidates_offshoot :
    ∃ rule, offshoot.candidates 'A' = [("A(x)".toList, [rule])] ∧
      rule.toRuleText = ⟨"A(x)".toList, "B(x)".toList, []⟩ :=
  Grammar.exists_candidate (by decide +kernel)

/-- Two arguments are one too many. -/
theorem arity_of_step_two_for_one :
    (start offshoot .empty "A(1,2)".toList).step.Fails default
      (.arityMismatch "A(x)".toList 1 2) default := by
  have found : Token.first? (start offshoot .empty "A(1,2)".toList).rest =
      some (⟨'A', some "1,2".toList⟩, []) := by
    decide +kernel
  have evaluated : (Replacement.evaluateArguments .empty 2 "1,2".toList).Gives default [1, 2]
      default := by
    decide +kernel
  obtain ⟨rule, listed, _⟩ := exists_candidates_offshoot
  obtain ⟨_, _, refused⟩ := arity_of_step _ rfl found
  rw [refused _ _ _ rfl listed (by decide +kernel)]
  exact Attempt.fails_bind_iff.mpr (.inr ⟨[1, 2], default, evaluated,
    Attempt.fails_throw_iff.mpr ⟨by decide +kernel, rfl⟩⟩)

/-- A symbol without a list takes the body of a rule with a parameter, and the name of the
parameter comes into the sequence. -/
theorem arity_ne_of_bare_symbol :
    ∃ rule next, (offshoot.originOf .empty 0 ⟨'A', none⟩).Gives default (.copied rule) default ∧
      Token.arity ⟨'A', none⟩ = 0 ∧ (Rule.formalNames rule.key).length = 1 ∧
        (start offshoot .empty "A".toList).step.Gives default (some (⟨⟨0, 1⟩, ⟨0, 4⟩⟩, next))
          default ∧
          next.output.text = "B(x)".toList := by
  obtain ⟨rule, listed, texts⟩ := exists_candidates_offshoot
  have key : rule.key = "A(x)".toList := congrArg RuleText.key texts
  have body : rule.body = "B(x)".toList := congrArg RuleText.body texts
  have found : Token.first? (start offshoot .empty "A".toList).rest = some (⟨'A', none⟩, []) := by
    decide +kernel
  have replaced : offshoot.originOf .empty 0 ⟨'A', none⟩ = pure (.copied rule) := by
    simp only [Grammar.originOf, Replacement.originOfSymbol, listed]
    rfl
  have stepped : (start offshoot .empty "A".toList).step.Gives default
      (some ((start offshoot .empty "A".toList).advance 1 [] rule.body)) default := by
    refine gives_step_iff.mpr (.inr ⟨⟨'A', none⟩, [], rule.body, found, ?_, rfl⟩)
    rw [Grammar.rewriteToken_eq_originOf_bind]
    exact Attempt.gives_bind_iff.mpr ⟨.copied rule, default, replaced ▸ rfl, rfl⟩
  rw [body] at stepped
  exact ⟨rule, _, by rw [replaced]; rfl, rfl, by rw [key]; decide, stepped, by decide⟩

end Pass

end Arbor
