import Arbor.LSystem.Basic
import Arbor.Proofs.Attempts
import Arbor.Proofs.Tokens

/-!
# A pass token by token

The steps of a pass keep a cursor, the rest of the input and the output written so far.
Here a pass is given instead by what it makes of a list of tokens and by how it ends:
each token has its replacement, the replacements are written one behind the other, and
a list that does not end is the fault of the symbol that carries it. Both are the same
computation, with the same draws in the same order.
-/
namespace Arbor

open Text

namespace Grammar

/-- What takes the place of a token that stands at `position`. -/
def rewriteToken (grammar : Grammar) (constants : Constants) (position : Nat) (token : Token) :
    Attempt DerivationError Text :=
  match token.contents? with
  | none => Attempt.ofExcept (Replacement.ofSymbol grammar token.symbol position)
  | some contents =>
    Replacement.ofSymbolWithList grammar constants token.symbol
      (position + token.symbol.utf8Size + 1) contents

/-- What takes the place of tokens that stand one after the other from `position` on. -/
def rewriteTokens (grammar : Grammar) (constants : Constants) (position : Nat) :
    List Token → Attempt DerivationError Text
  | [] => pure []
  | token :: tokens => do
    let first ← grammar.rewriteToken constants position token
    let others ← grammar.rewriteTokens constants (position + byteLength token.text) tokens
    pure (first ++ others)

/-- How a pass ends in front of a text that no token begins: in the regular way at the end
of the input, with a fault at a list that does not end. -/
def rewriteLast (position : Nat) : Text → Attempt DerivationError Text
  | [] => pure []
  | symbol :: _ => throw (.brackets (position + symbol.utf8Size))

/-- What a pass makes of a text that begins at `position`. -/
def rewriteFrom (grammar : Grammar) (constants : Constants) (position : Nat) (text : Text) :
    Attempt DerivationError Text := do
  let parts := Token.cut text
  let written ← grammar.rewriteTokens constants position parts.1
  let last ← rewriteLast (position + byteLength (Token.textOfAll parts.1)) parts.2
  pure (written ++ last)

variable {grammar : Grammar} {constants : Constants}

/-- At the end nothing is left to do. -/
@[simp] theorem rewriteFrom_nil (position : Nat) :
    grammar.rewriteFrom constants position [] = pure [] := by
  simp [rewriteFrom, rewriteTokens, rewriteLast]

/-- Where no token begins the text is a symbol with a list that does not end. -/
theorem rewriteFrom_of_none {symbol : Char} {behind : Text}
    (none : Token.first? (symbol :: behind) = none) (position : Nat) :
    grammar.rewriteFrom constants position (symbol :: behind) =
      throw (.brackets (position + symbol.utf8Size)) := by
  simp [rewriteFrom, Token.cut_of_none none, rewriteTokens, rewriteLast, Token.textOfAll]

/-- The first token is replaced first, and the rest is rewritten from behind it. -/
theorem rewriteFrom_of_some {text after : Text} {token : Token}
    (found : Token.first? text = some (token, after)) (position : Nat) :
    grammar.rewriteFrom constants position text = (do
      let first ← grammar.rewriteToken constants position token
      let others ← grammar.rewriteFrom constants (position + byteLength token.text) after
      pure (first ++ others)) := by
  simp only [rewriteFrom, Token.cut_of_some found, rewriteTokens, Token.textOfAll,
    List.flatMap_cons, byteLength_append, bind_assoc, pure_bind, List.append_assoc, Nat.add_assoc]

/-- A text that is cut to its end is made of its tokens alone. -/
theorem rewriteFrom_of_complete {text : Text} (complete : (Token.cut text).2 = [])
    (position : Nat) :
    grammar.rewriteFrom constants position text =
      grammar.rewriteTokens constants position (Token.cut text).1 := by
  simp [rewriteFrom, complete, rewriteLast]

/-- A pass that gives a text has come to the end of its input. -/
theorem complete_of_rewriteFrom {text written : Text} {position : Nat}
    {generator after : Generator}
    (given : (grammar.rewriteFrom constants position text).Gives generator written after) :
    (Token.cut text).2 = [] := by
  obtain ⟨_, _, _, given⟩ := Attempt.gives_bind_iff.mp given
  obtain ⟨_, _, ended, _⟩ := Attempt.gives_bind_iff.mp given
  cases rest : (Token.cut text).2 with
  | nil => rfl
  | cons symbol behind => simp [rest, rewriteLast] at ended

end Grammar

namespace Pass

/-- There is no step at the end of the input. -/
theorem step_of_nil {pass : Pass} (done : pass.rest = []) : pass.step = pure none := by
  simp [step, done]

/-- A list that does not end is reported where it opens. -/
theorem step_of_none {pass : Pass} {symbol : Char} {behind : Text}
    (rest : pass.rest = symbol :: behind) (none : Token.first? (symbol :: behind) = none) :
    pass.step = throw (.brackets (pass.cursor + symbol.utf8Size)) := by
  cases taken : ParameterList.take 0 behind with
  | ok parts => simp [Token.first?, taken] at none
  | error fault =>
    obtain rfl := ParameterList.eq_unclosed_of_take taken
    rw [ParameterList.take_position 0 (pass.cursor + symbol.utf8Size)] at taken
    simp [step, rest, taken, DerivationError.ofBrackets]

/-- A step replaces the first token of the rest and goes on behind it. -/
theorem step_of_some {pass : Pass} {token : Token} {after : Text}
    (found : Token.first? pass.rest = some (token, after)) :
    pass.step = (do
      let text ← pass.grammar.rewriteToken pass.constants pass.cursor token
      pure (some (pass.advance (pass.cursor + byteLength token.text) after text))) := by
  obtain ⟨split, fits⟩ := Token.first?_eq_some_iff.mp found
  obtain ⟨symbol, contents?⟩ := token
  cases contents? with
  | none =>
    have rest : pass.rest = symbol :: after := split
    have taken : ParameterList.take (pass.cursor + symbol.utf8Size) after = .ok (none, after) :=
      ParameterList.take_of_head?_ne fits _
    simp [step, rest, taken, Grammar.rewriteToken, Token.text]
  | some contents =>
    have rest : pass.rest = symbol :: '(' :: (contents ++ ')' :: after) := by
      simpa [Token.text] using split
    have taken : ParameterList.take (pass.cursor + symbol.utf8Size)
        ('(' :: (contents ++ ')' :: after)) = .ok (some contents, after) :=
      ParameterList.take_eq_some_iff.mpr ⟨rfl, fits⟩
    have length : pass.cursor + symbol.utf8Size + byteLength contents + 2 =
        pass.cursor + byteLength (Token.text ⟨symbol, some contents⟩) := by
      have brackets : '('.utf8Size = 1 ∧ ')'.utf8Size = 1 := by decide
      simp only [Token.text, byteLength_cons, byteLength_append, byteLength_nil, brackets]
      omega
    simp only [step, rest, taken, Grammar.rewriteToken, length]

/-- Enough steps write what the tokens of the rest are replaced by, behind what was
written before. Every step takes at least one character, so as many steps as there are
characters are enough; the induction is on the number of steps. -/
theorem text_run {count : Nat} {pass : Pass} (enough : pass.rest.length ≤ count) :
    (do
      let last ← run count pass
      pure last.output.text) = (do
      let text ← pass.grammar.rewriteFrom pass.constants pass.cursor pass.rest
      pure (pass.output.text ++ text)) := by
  induction count generalizing pass with
  | zero =>
    have done : pass.rest = [] := List.eq_nil_of_length_eq_zero (Nat.le_zero.mp enough)
    simp [run, done]
  | succ count ih =>
    cases rest : pass.rest with
    | nil => simp [run, step_of_nil rest]
    | cons symbol behind =>
      cases found : Token.first? (symbol :: behind) with
      | none => simp [run, step_of_none rest found, Grammar.rewriteFrom_of_none found]
      | some parts =>
        obtain ⟨token, after⟩ := parts
        have shorter := Token.length_after_lt found
        rw [← rest] at found shorter
        rw [← rest, Grammar.rewriteFrom_of_some found, run, step_of_some found]
        simp only [bind_assoc, pure_bind]
        refine bind_congr fun text => ?_
        have later := @ih (pass.advance (pass.cursor + byteLength token.text) after text).2
          (by simp only [advance]; omega)
        simpa only [advance, TextBuilder.text_append, List.append_assoc] using later

end Pass

/-- A pass rewrites a sequence token by token from its start. -/
theorem Grammar.rewrite_eq_rewriteFrom (grammar : Grammar) (constants : Constants)
    (sequence : Text) :
    grammar.rewrite constants sequence = grammar.rewriteFrom constants 0 sequence := by
  have written := Pass.text_run (Nat.le_refl (Pass.start grammar constants sequence).rest.length)
  simpa [rewrite, Pass.start] using written

end Arbor
