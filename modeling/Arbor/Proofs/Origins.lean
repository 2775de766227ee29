import Arbor.Proofs.Passes

/-!
# Where the text for a token comes from

What takes the place of a token comes from the token alone or from a rule, and the rule is known
before anything is written. The origin of the text is found first: the arguments are evaluated, a
rule is chosen, and the values are bound to the names of its parameters. Then the text is made
from it, and only the slots of the body are left to be evaluated.
-/
namespace Arbor

open Text

/-- Where the text that takes the place of a token comes from. -/
inductive Origin where
  /-- No rule: the symbol itself, or the symbol with its arguments as numbers. -/
  | kept (text : Text)
  /-- The body of a rule as it stands. -/
  | copied (rule : Rule)
  /-- The body of a rule of a key, with its slots filled. -/
  | instantiated (key : Text) (rule : Rule) (scope : Scope)

namespace Origin

/-- The text that comes from an origin. -/
def text : Origin → Attempt DerivationError Text
  | .kept text => pure text
  | .copied rule => pure rule.body
  | .instantiated key rule scope => (rule.instantiate scope).mapError (.body key)

/-- The rule whose body is written. -/
def rule? : Origin → Option Rule
  | .kept _ => none
  | .copied rule => some rule
  | .instantiated _ rule _ => some rule

end Origin

/-! ## Choosing a rule -/

namespace Replacement

/-- The rule that is chosen is one of those to choose from. -/
theorem mem_of_select {key : Text} {scope : Scope} {rules : List Rule} {rule : Rule}
    {generator after : Generator}
    (given : (select key scope rules).Gives generator rule after) : rule ∈ rules := by
  induction rules generalizing generator with
  | nil => simp [select] at given
  | cons first others ih =>
    unfold select at given
    split at given
    · obtain ⟨verdict, between, _, given⟩ := Attempt.gives_bind_iff.mp given
      split at given
      · obtain ⟨rfl, _⟩ := Attempt.gives_pure_iff.mp given
        exact List.mem_cons_self
      · exact List.mem_cons_of_mem first (ih given)
    · simp at given

/-- The rule of a key that is instantiated with arguments. -/
def choose (constants : Constants) (key : Text) (rules : List Rule) (actuals : List Float) :
    Attempt DerivationError Origin :=
  match rules with
  | [] => throw (.emptyRuleList key)
  | first :: others =>
    if first.formals.length = actuals.length then do
      let scope : Scope := ⟨first.formals.zip actuals, constants⟩
      let rule ← if others.isEmpty then pure first else select key scope rules
      pure (.instantiated key rule scope)
    else
      throw (.arityMismatch key first.formals.length actuals.length)

/-- The rules of a key make of arguments what comes from the rule that is chosen. -/
theorem apply_eq_choose_bind (constants : Constants) (key : Text) (rules : List Rule)
    (actuals : List Float) :
    apply constants key rules actuals = choose constants key rules actuals >>= Origin.text := by
  cases rules with
  | nil => rfl
  | cons first others =>
    unfold apply choose
    dsimp only
    split
    · split
      · rfl
      · simp only [bind_assoc, pure_bind, Origin.text]
    · rfl

/-- The rule that is chosen is one of the key, and the first one has as many parameters as there
are arguments. -/
theorem exists_of_choose {constants : Constants} {key : Text} {rules : List Rule}
    {actuals : List Float} {origin : Origin} {generator after : Generator}
    (given : (choose constants key rules actuals).Gives generator origin after) :
    ∃ first rule, first ∈ rules ∧ rule ∈ rules ∧ first.formals.length = actuals.length ∧
      origin = .instantiated key rule ⟨first.formals.zip actuals, constants⟩ := by
  cases rules with
  | nil => simp [choose] at given
  | cons first others =>
    unfold choose at given
    dsimp only at given
    split at given
    · next right =>
      split at given
      · obtain ⟨rfl, _⟩ := Attempt.gives_pure_iff.mp given
        exact ⟨first, first, List.mem_cons_self, List.mem_cons_self, right, rfl⟩
      · obtain ⟨rule, between, chosen, given⟩ := Attempt.gives_bind_iff.mp given
        obtain ⟨rfl, _⟩ := Attempt.gives_pure_iff.mp given
        exact ⟨first, rule, List.mem_cons_self, mem_of_select chosen, right, rfl⟩
    · simp at given

/-- Rules with another number of parameters are not looked at. -/
theorem choose_of_length_ne {constants : Constants} {key : Text} {rules : List Rule}
    {actuals : List Float} (some : rules ≠ [])
    (kept : ∀ rule ∈ rules, rule.key = key)
    (other : actuals.length ≠ (Rule.formalNames key).length) :
    choose constants key rules actuals =
      throw (.arityMismatch key (Rule.formalNames key).length actuals.length) := by
  cases rules with
  | nil => exact absurd rfl some
  | cons first others =>
    have formals : first.formals = Rule.formalNames key := by
      rw [Rule.formals, kept first List.mem_cons_self]
    rw [choose, formals, if_neg (Ne.symm other)]

/-! ## Origins at tokens -/

/-- The origin of what takes the place of a symbol without a list. -/
def originOfSymbol (grammar : Grammar) (symbol : Char) (position : Nat) :
    Except DerivationError Origin :=
  match grammar.candidates symbol with
  | [] => .ok (.kept [symbol])
  | [(_, [rule])] => .ok (.copied rule)
  | [(key, [])] => .error (.emptyRuleList key)
  | _ => .error (.ambiguousSymbol symbol position)

/-- The origin of what takes the place of a symbol with a list. -/
def originOfSymbolWithList (grammar : Grammar) (constants : Constants) (symbol : Char)
    (position : Nat) (contents : Text) : Attempt DerivationError Origin := do
  let actuals ← evaluateArguments constants position contents
  match grammar.candidates symbol with
  | [(key, rules)] => choose constants key rules actuals
  | _ => pure (.kept (flatten symbol actuals))

end Replacement

namespace Grammar

open Replacement

variable {grammar : Grammar} {constants : Constants} {token : Token} {position : Nat}

/-- The origin of what takes the place of a token that stands at `position`. -/
def originOf (grammar : Grammar) (constants : Constants) (position : Nat) (token : Token) :
    Attempt DerivationError Origin :=
  match token.contents? with
  | none => Attempt.ofExcept (originOfSymbol grammar token.symbol position)
  | some contents =>
    originOfSymbolWithList grammar constants token.symbol (position + token.symbol.utf8Size + 1)
      contents

/-- A token is replaced by the text that comes from its origin. -/
theorem rewriteToken_eq_originOf_bind (grammar : Grammar) (constants : Constants)
    (position : Nat) (token : Token) :
    grammar.rewriteToken constants position token =
      grammar.originOf constants position token >>= Origin.text := by
  obtain ⟨symbol, contents?⟩ := token
  cases contents? with
  | none =>
    unfold rewriteToken originOf ofSymbol originOfSymbol
    rcases grammar.candidates symbol with
      _ | ⟨⟨key, _ | ⟨rule, _ | ⟨second, rules⟩⟩⟩, _ | ⟨other, others⟩⟩ <;> rfl
  | some contents =>
    simp only [rewriteToken, originOf, ofSymbolWithList, originOfSymbolWithList, bind_assoc]
    refine bind_congr fun actuals => ?_
    rcases grammar.candidates symbol with _ | ⟨⟨key, rules⟩, _ | ⟨other, others⟩⟩
    · rfl
    · exact apply_eq_choose_bind constants key rules actuals
    · rfl

/-- A rule that replaces a symbol without a list is the only one of the only key. -/
theorem of_originOfSymbol {symbol : Char} {origin : Origin} {rule : Rule}
    (given : originOfSymbol grammar symbol position = .ok origin)
    (written : origin.rule? = some rule) :
    origin = .copied rule ∧ ∃ key, grammar.candidates symbol = [(key, [rule])] := by
  unfold originOfSymbol at given
  split at given
  · obtain rfl := Except.ok.inj given
    cases written
  · next key only listed =>
    obtain rfl := Except.ok.inj given
    obtain rfl : only = rule := Option.some.inj written
    exact ⟨rfl, key, listed⟩
  · cases given
  · cases given

/-- A rule that replaces a symbol with a list is one of the only key, and the first rule of this
key has as many parameters as there are arguments. -/
theorem of_originOfSymbolWithList {symbol : Char} {contents : Text} {origin : Origin} {rule : Rule}
    {generator after : Generator}
    (given : (originOfSymbolWithList grammar constants symbol position contents).Gives generator
      origin after)
    (written : origin.rule? = some rule) :
    ∃ key rules first actuals between, grammar.candidates symbol = [(key, rules)] ∧
      first ∈ rules ∧ rule ∈ rules ∧
        (evaluateArguments constants position contents).Gives generator actuals between ∧
          first.formals.length = actuals.length ∧
            origin = .instantiated key rule ⟨first.formals.zip actuals, constants⟩ := by
  obtain ⟨actuals, between, evaluated, given⟩ := Attempt.gives_bind_iff.mp given
  split at given
  · next key rules listed =>
    obtain ⟨first, other, heads, among, right, rfl⟩ := exists_of_choose given
    obtain rfl : other = rule := Option.some.inj written
    exact ⟨key, rules, first, actuals, between, listed, heads, among, evaluated, right, rfl⟩
  · obtain ⟨rfl, _⟩ := Attempt.gives_pure_iff.mp given
    cases written

end Grammar

end Arbor
