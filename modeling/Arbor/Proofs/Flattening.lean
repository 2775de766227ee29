import Arbor.Proofs.DecimalLists
import Arbor.Proofs.Maintenance
import Arbor.Proofs.WrittenNumbers

/-!
# Flat sequences

Where no rule takes a token, a pass only evaluates the arguments. What it writes is cut into as
many tokens as before, with the same symbols: a symbol without a list is followed by the same
character as before, since every token is written with its own symbol in front, and a list of
numbers ends where it is closed. The numbers are their own values, so a second pass changes
nothing, whatever constants there are, and draws nothing.
-/
namespace Arbor

open Text

/-! ## Flat tokens -/

namespace Token

/-- The arguments of a token, if it has any, are texts of finite numbers. -/
def Flat (token : Token) : Prop :=
  ∀ contents, token.contents? = some contents →
    ∃ values : List Float, (∀ value ∈ values, value.isFinite = true) ∧
      contents = joinWith ',' (values.map formatNumber)

/-- A flat token has a list that ends where it should. -/
theorem Flat.closed {token : Token} (flat : token.Flat) : token.Closed := by
  obtain ⟨symbol, contents?⟩ := token
  cases contents? with
  | none => trivial
  | some contents =>
    obtain ⟨values, finite, rfl⟩ := flat contents rfl
    exact balanced_of_decimals (forall_isDecimal_map_formatNumber finite)

end Token

/-! ## Tokens that no rule takes -/

namespace Grammar

variable {grammar : Grammar} {constants : Constants}

/-- No rule takes the token: no key begins with its symbol, or, if it has a list, several keys
do. -/
def Leaves (grammar : Grammar) (token : Token) : Prop :=
  match token.contents? with
  | none => grammar.candidates token.symbol = []
  | some _ => (grammar.candidates token.symbol).length ≠ 1

instance (grammar : Grammar) (token : Token) : Decidable (grammar.Leaves token) := by
  unfold Leaves
  split
  · exact decidable_of_iff _ List.isEmpty_iff
  · infer_instance

/-- A symbol without a list that no rule takes stays. -/
theorem rewriteToken_of_leaves_none {symbol : Char} (left : grammar.Leaves ⟨symbol, none⟩)
    (position : Nat) : grammar.rewriteToken constants position ⟨symbol, none⟩ = pure [symbol] := by
  have unknown : grammar.candidates symbol = [] := left
  simp only [rewriteToken, Replacement.ofSymbol, unknown]
  rfl

/-- The arguments of a token that no rule takes are evaluated in place. -/
theorem rewriteToken_of_leaves_some {symbol : Char} {contents : Text}
    (left : grammar.Leaves ⟨symbol, some contents⟩) (position : Nat) :
    grammar.rewriteToken constants position ⟨symbol, some contents⟩ = (do
      let actuals ← Replacement.evaluateArguments constants (position + symbol.utf8Size + 1) contents
      pure (Replacement.flatten symbol actuals)) := by
  simp only [rewriteToken, Replacement.ofSymbolWithList]
  refine bind_congr fun actuals => ?_
  split
  · next key rules listed => exact absurd (congrArg List.length listed) left
  · rfl

/-- Texts of finite numbers are arguments with these numbers as values, without a draw. -/
theorem evaluatePieces_of_numbers {values : List Float}
    (finite : ∀ value ∈ values, value.isFinite = true) (position : Nat) :
    Replacement.evaluatePieces constants position (values.map formatNumber) = pure values := by
  induction values generalizing position with
  | nil => simp [Replacement.evaluatePieces]
  | cons value values ih =>
    obtain ⟨here, later⟩ := List.forall_mem_cons.mp finite
    simp [Replacement.evaluatePieces, Expression.evaluateText_formatNumber here, ih later]

/-- A flat token that no rule takes stays as it is, whatever constants there are. -/
theorem rewriteToken_of_flat {token : Token} (left : grammar.Leaves token) (flat : token.Flat)
    (position : Nat) : grammar.rewriteToken constants position token = pure token.text := by
  obtain ⟨symbol, contents?⟩ := token
  cases contents? with
  | none => exact rewriteToken_of_leaves_none left position
  | some contents =>
    obtain ⟨values, finite, rfl⟩ := flat contents rfl
    have pieces := arguments_of_decimals (forall_isDecimal_map_formatNumber finite)
      (position + symbol.utf8Size + 1)
    rw [rewriteToken_of_leaves_some left, Replacement.evaluateArguments, pieces]
    simp only [evaluatePieces_of_numbers finite, pure_bind]
    rfl

/-- A token that no rule takes is replaced by a flat token of the same kind. -/
theorem exists_flat_of_rewriteToken {token : Token} (left : grammar.Leaves token) {position : Nat}
    {generator after : Generator} {written : Text}
    (given : (grammar.rewriteToken constants position token).Gives generator written after) :
    ∃ flat : Token, written = flat.text ∧ flat.symbol = token.symbol ∧
      (flat.contents? = none ↔ token.contents? = none) ∧ flat.Flat ∧ grammar.Leaves flat := by
  obtain ⟨symbol, contents?⟩ := token
  cases contents? with
  | none =>
    rw [rewriteToken_of_leaves_none left] at given
    obtain ⟨rfl, _⟩ := Attempt.gives_pure_iff.mp given
    refine ⟨⟨symbol, none⟩, rfl, rfl, Iff.rfl, ?_, left⟩
    intro contents listed
    cases listed
  | some contents =>
    rw [rewriteToken_of_leaves_some left] at given
    obtain ⟨actuals, between, evaluated, given⟩ := Attempt.gives_bind_iff.mp given
    obtain ⟨rfl, _⟩ := Attempt.gives_pure_iff.mp given
    have finite := Replacement.finite_of_evaluateArguments evaluated
    refine ⟨⟨symbol, some (joinWith ',' (actuals.map formatNumber))⟩, rfl, rfl, by simp, ?_, left⟩
    intro listed same
    exact ⟨actuals, finite, (Option.some.inj same).symm⟩

/-! ## Passes that no rule takes part in -/

/-- Flat tokens that no rule takes stay as they are. -/
theorem rewriteTokens_of_flat {tokens : List Token} (left : ∀ token ∈ tokens, grammar.Leaves token)
    (flat : ∀ token ∈ tokens, token.Flat) (position : Nat) :
    grammar.rewriteTokens constants position tokens = pure (Token.textOfAll tokens) := by
  induction tokens generalizing position with
  | nil => simp [rewriteTokens, Token.textOfAll]
  | cons token tokens ih =>
    obtain ⟨left_here, left_later⟩ := List.forall_mem_cons.mp left
    obtain ⟨flat_here, flat_later⟩ := List.forall_mem_cons.mp flat
    simp only [rewriteTokens, rewriteToken_of_flat left_here flat_here, ih left_later flat_later,
      pure_bind]
    rfl

/-- What is written for the tokens of a text is cut into flat tokens, and begins with the same
symbol as the text. The symbol in front is carried along because it decides whether the token
before it has a list. -/
theorem exists_flat_of_rewriteTokens {text : Text} (complete : (Token.cut text).2 = [])
    (left : ∀ token ∈ (Token.cut text).1, grammar.Leaves token) {position : Nat}
    {generator after : Generator} {written : Text}
    (given : (grammar.rewriteTokens constants position (Token.cut text).1).Gives generator written
      after) :
    ∃ tokens, Token.cut written = (tokens, []) ∧ written.head? = text.head? ∧
      ∀ token ∈ tokens, grammar.Leaves token ∧ token.Flat := by
  induction text using Token.cut.induct generalizing position generator after written with
  | case1 text none =>
    rw [Token.cut_of_none none] at complete given
    obtain rfl : text = [] := complete
    obtain ⟨rfl, _⟩ := Attempt.gives_pure_iff.mp given
    exact ⟨[], Token.cut_nil, rfl, by simp⟩
  | case2 text token behind found ih =>
    rw [Token.cut_of_some found] at complete left given
    obtain ⟨left_here, left_later⟩ := List.forall_mem_cons.mp left
    obtain ⟨first, between, replaced, given⟩ := Attempt.gives_bind_iff.mp given
    obtain ⟨others, last, rest, given⟩ := Attempt.gives_bind_iff.mp given
    obtain ⟨rfl, _⟩ := Attempt.gives_pure_iff.mp given
    obtain ⟨flat, rfl, symbol, kind, numbers, left_flat⟩ :=
      exists_flat_of_rewriteToken left_here replaced
    obtain ⟨tokens, again, front, all⟩ := ih complete left_later rest
    obtain ⟨rfl, fits⟩ := Token.first?_eq_some_iff.mp found
    have fits_again : flat.Fits others := by
      apply numbers.closed.fits
      intro none
      rw [front]
      exact fits.head?_ne (kind.mp none)
    have found_again := Token.first?_eq_some_iff.mpr ⟨rfl, fits_again⟩
    refine ⟨flat :: tokens, ?_, ?_, ?_⟩
    · rw [Token.cut_of_some found_again, again]
    · rw [Token.head?_text, Token.head?_text, symbol]
    · exact List.forall_mem_cons.mpr ⟨⟨left_flat, numbers⟩, all⟩

/-- A pass over a sequence none of whose tokens a rule takes gives a sequence that further passes
leave as it is, also with other constants, and without a draw. -/
theorem rewrite_again {sequence : Text}
    (left : ∀ token ∈ (Token.cut sequence).1, grammar.Leaves token)
    {generator after : Generator} {written : Text}
    (given : (grammar.rewrite constants sequence).Gives generator written after)
    (others : Constants) (draws : Generator) :
    (grammar.rewrite others written).Gives draws written draws := by
  rw [rewrite_eq_rewriteFrom] at given
  have complete := complete_of_rewriteFrom given
  rw [rewriteFrom_of_complete complete] at given
  obtain ⟨tokens, again, _, all⟩ := exists_flat_of_rewriteTokens complete left given
  have text := Token.textOfAll_cut written
  rw [again, List.append_nil] at text
  have stays : grammar.rewriteTokens others 0 tokens = pure written := by
    rw [rewriteTokens_of_flat (fun token among => (all token among).1)
      (fun token among => (all token among).2), text]
  rw [rewrite_eq_rewriteFrom, rewriteFrom_of_complete (by rw [again]), again, stays]
  exact Attempt.gives_pure _ _

/-- Two keys begin with `A`, so no rule takes it with a list; a list may be empty, and a number
may be a negative zero. -/
theorem rewrite_again_two_keys :
    ((empty.changeAll [.add "A(x)".toList "B".toList [], .add "A(x,y)".toList "C".toList []]).rewrite
      .empty ")A(-0,1/4)B()(A(2-2)".toList).Gives default ")A(-0,0.25)B()(A(0)".toList default ∧
    ∀ others draws,
      ((empty.changeAll
        [.add "A(x)".toList "B".toList [], .add "A(x,y)".toList "C".toList []]).rewrite others
          ")A(-0,0.25)B()(A(0)".toList).Gives draws ")A(-0,0.25)B()(A(0)".toList draws := by
  have written : ((empty.changeAll
      [.add "A(x)".toList "B".toList [], .add "A(x,y)".toList "C".toList []]).rewrite .empty
        ")A(-0,1/4)B()(A(2-2)".toList).Gives default ")A(-0,0.25)B()(A(0)".toList default := by
    decide +kernel
  exact ⟨written, rewrite_again (by decide +kernel) written⟩

end Grammar

end Arbor
