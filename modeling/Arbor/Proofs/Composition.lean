import Arbor.Proofs.Passes

/-!
# Passes over texts that stand one behind the other

A pass has no memory but the generator. If it comes to the end of a first text, then what
it makes of this text followed by a second one is what it makes of each, one behind the
other; the second text is rewritten with the generator that the first one left. What the
second text is rewritten to does not depend on where it stands, and its faults are moved
by the length of what stands before it.

The second text must not begin with an opening bracket, because this one would open a list
of the last symbol of the first text.
-/
namespace Arbor

open Text

/-- The same fault of a text that stands `offset` bytes later in its sequence. Positions
within the text of a single expression are no positions of the sequence and stay. -/
def DerivationError.shift (offset : Nat) : DerivationError → DerivationError
  | .brackets position => .brackets (position + offset)
  | .argument position fault => .argument (position + offset) fault
  | .ambiguousSymbol symbol position => .ambiguousSymbol symbol (position + offset)
  | fault => fault

namespace Replacement

variable {constants : Constants}

/-- The choice of a rule reports no position. -/
theorem mapError_select (offset : Nat) (key : Text) (scope : Scope) (rules : List Rule) :
    (select key scope rules).mapError (.shift offset) = select key scope rules := by
  induction rules with
  | nil => rfl
  | cons rule rules ih =>
    unfold select
    split
    · rw [Attempt.mapError_bind, Attempt.mapError_lift]
      refine bind_congr fun verdict => ?_
      split
      · rfl
      · exact ih
    · rfl

/-- The application of a rule reports no position. -/
theorem mapError_apply (offset : Nat) (key : Text) (rules : List Rule) (actuals : List Float) :
    (apply constants key rules actuals).mapError (.shift offset) =
      apply constants key rules actuals := by
  cases rules with
  | nil => rfl
  | cons first others =>
    have body (rule : Rule) (scope : Scope) :
        ((rule.instantiate scope).mapError (DerivationError.body key)).mapError
            (DerivationError.shift offset) =
          (rule.instantiate scope).mapError (DerivationError.body key) := by
      rw [Attempt.mapError_mapError]
      rfl
    unfold apply
    dsimp only
    split
    · split
      · rw [pure_bind, body]
      · rw [Attempt.mapError_bind, mapError_select]
        exact bind_congr fun rule => body rule _
    · rfl

/-- Arguments that stand later have the same values and their faults later. -/
theorem evaluatePieces_add (offset position : Nat) (pieces : List Text) :
    evaluatePieces constants (position + offset) pieces =
      (evaluatePieces constants position pieces).mapError (.shift offset) := by
  induction pieces generalizing position with
  | nil => rfl
  | cons piece pieces ih =>
    have behind : position + offset + byteLength piece + 1 =
        position + byteLength piece + 1 + offset := by omega
    simp only [evaluatePieces, behind, ih, Attempt.mapError_bind, Attempt.mapError_mapError,
      Attempt.mapError_pure]
    rfl

/-- The arguments of a list that stands later have the same values and their faults later. -/
theorem evaluateArguments_add {contents : Text} (balanced : Balanced contents)
    (offset position : Nat) :
    evaluateArguments constants (position + offset) contents =
      (evaluateArguments constants position contents).mapError (.shift offset) := by
  obtain ⟨pieces, _, found⟩ := ParameterList.arguments_of_balanced balanced
  simp only [evaluateArguments, found]
  exact evaluatePieces_add offset position pieces

/-- A symbol that stands later is replaced by the same text and has its faults later. -/
theorem ofSymbol_add (grammar : Grammar) (symbol : Char) (offset position : Nat) :
    ofSymbol grammar symbol (position + offset) =
      (ofSymbol grammar symbol position).mapError (.shift offset) := by
  unfold ofSymbol
  split <;> rfl

end Replacement

namespace Grammar

variable {grammar : Grammar} {constants : Constants}

/-- A token that stands later is replaced by the same text and has its faults later. -/
theorem rewriteToken_add {token : Token} (closed : token.Closed) (offset position : Nat) :
    grammar.rewriteToken constants (position + offset) token =
      (grammar.rewriteToken constants position token).mapError (.shift offset) := by
  obtain ⟨symbol, contents?⟩ := token
  cases contents? with
  | none => simp [rewriteToken, Replacement.ofSymbol_add]
  | some contents =>
    have behind : position + offset + symbol.utf8Size + 1 =
        position + symbol.utf8Size + 1 + offset := by omega
    simp only [rewriteToken, Replacement.ofSymbolWithList, behind,
      Replacement.evaluateArguments_add closed, Attempt.mapError_bind]
    refine bind_congr fun actuals => ?_
    split
    · rw [Replacement.mapError_apply]
    · rfl

/-- Tokens that stand later are replaced by the same text and have their faults later. -/
theorem rewriteTokens_add {tokens : List Token} (closed : ∀ token ∈ tokens, token.Closed)
    (offset position : Nat) :
    grammar.rewriteTokens constants (position + offset) tokens =
      (grammar.rewriteTokens constants position tokens).mapError (.shift offset) := by
  induction tokens generalizing position with
  | nil => rfl
  | cons token tokens ih =>
    obtain ⟨here, later⟩ := List.forall_mem_cons.mp closed
    have behind : position + offset + byteLength token.text =
        position + byteLength token.text + offset := by omega
    simp only [rewriteTokens, rewriteToken_add here, behind, ih later, Attempt.mapError_bind,
      Attempt.mapError_pure]

/-- A text that stands later is rewritten to the same text and has its faults later. -/
theorem rewriteFrom_add (offset position : Nat) (text : Text) :
    grammar.rewriteFrom constants (position + offset) text =
      (grammar.rewriteFrom constants position text).mapError (.shift offset) := by
  have last (place : Nat) (rest : Text) :
      rewriteLast (place + offset) rest = (rewriteLast place rest).mapError (.shift offset) := by
    cases rest with
    | nil => rfl
    | cons symbol behind =>
      simp [rewriteLast, DerivationError.shift, Nat.add_right_comm]
  simp only [rewriteFrom, rewriteTokens_add Token.closed_of_mem_cut, Attempt.mapError_bind,
    Attempt.mapError_pure, Nat.add_right_comm position offset, last]

/-- Tokens are replaced one after the other, also across a cut between them. -/
theorem rewriteTokens_append (position : Nat) (left right : List Token) :
    grammar.rewriteTokens constants position (left ++ right) = (do
      let first ← grammar.rewriteTokens constants position left
      let second ← grammar.rewriteTokens constants
        (position + byteLength (Token.textOfAll left)) right
      pure (first ++ second)) := by
  induction left generalizing position with
  | nil => simp [rewriteTokens, Token.textOfAll]
  | cons token left ih =>
    simp only [List.cons_append, rewriteTokens, ih, Token.textOfAll, List.flatMap_cons,
      byteLength_append, bind_assoc, pure_bind, List.append_assoc, Nat.add_assoc]

/-- A text that can be cut to its end is rewritten in front of any other one that does not
begin with a list as it is alone, and the other one as it is alone where it stands. -/
theorem rewriteFrom_append {left right : Text} (complete : (Token.cut left).2 = [])
    (bare : right.head? ≠ some '(') (position : Nat) :
    grammar.rewriteFrom constants position (left ++ right) = (do
      let first ← grammar.rewriteFrom constants position left
      let second ← grammar.rewriteFrom constants (position + byteLength left) right
      pure (first ++ second)) := by
  have whole : Token.textOfAll (Token.cut left).1 = left := by
    simpa [complete] using Token.textOfAll_cut left
  rw [rewriteFrom_of_complete complete]
  simp only [rewriteFrom, Token.cut_append complete bare, rewriteTokens_append, whole]
  simp only [Token.textOfAll, List.flatMap_append, byteLength_append] at whole ⊢
  rw [whole]
  simp only [bind_assoc, pure_bind, List.append_assoc, Nat.add_assoc]

/-- What becomes of two texts that stand one behind the other is what becomes of the second
one, rewritten with the generator that the first one left: its text behind that of the
first, or its fault as many bytes later as the first text has, or nothing at all if a
number had to be drawn that does not exist.

The first text is known to be cut to its end because it was rewritten; from there on its
tokens and those of the second text do not notice one another. -/
theorem rewrite_append (grammar : Grammar) (constants : Constants) {first second written : Text}
    {generator between : Generator}
    (given : (grammar.rewrite constants first).Gives generator written between)
    (bare : second.head? ≠ some '(') :
    (grammar.rewrite constants (first ++ second)).outcome generator =
      ((grammar.rewrite constants second).outcome between).map fun (result, after) =>
        ((result.map (written ++ ·)).mapError (.shift (byteLength first)), after) := by
  rw [rewrite_eq_rewriteFrom] at given
  have complete := complete_of_rewriteFrom given
  have moved : grammar.rewriteFrom constants (0 + byteLength first) second =
      (grammar.rewrite constants second).mapError (.shift (byteLength first)) := by
    rw [rewriteFrom_add, rewrite_eq_rewriteFrom]
  rw [rewrite_eq_rewriteFrom, rewriteFrom_append complete bare, moved, Attempt.outcome_bind,
    given]
  simp only [Attempt.outcome_bind, Attempt.outcome_mapError]
  cases (grammar.rewrite constants second).outcome between with
  | none => rfl
  | some reached =>
    obtain ⟨result, after⟩ := reached
    cases result <;> rfl

/-- A fault of the second text is reported eight bytes later, because the first one has an
accented letter among its seven characters. -/
theorem rewrite_append_fault :
    (empty.rewrite .empty ("A(1+1)é".toList ++ "BA(1,x)".toList)).outcome default =
      some (.error (.argument 13 (.unknownName ['x'])), default) :=
  (@rewrite_append empty .empty "A(1+1)é".toList "BA(1,x)".toList "A(2)é".toList default default
    (by decide +kernel) (by decide)).trans (by decide +kernel)

end Grammar

end Arbor
