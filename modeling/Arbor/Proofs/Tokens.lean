import Arbor.Proofs.ParameterLists

/-!
# The tokens of a sequence

A token is a symbol with its parameter list, if it has one. A sequence falls into tokens
by its characters alone: which rules there are and which numbers are drawn plays no part.
Cutting stops in front of a symbol with a list that does not end, so a text is made up of
the texts of its tokens and of what is left there.

Whether a token stands at the start of a text depends on the token and on the one
character behind it: a symbol without a list must not be followed by an opening bracket.
This is why cutting a text and cutting what stands behind it is cutting both together.
-/
namespace Arbor

/-- An opening bracket in front of a text has no closing one: no closing bracket in the text has a
balanced text in front of it. -/
def Text.Unclosed (inside : Text) : Prop :=
  ∀ contents later, inside = contents ++ ')' :: later → ¬Balanced contents

/-- A symbol with the contents of its parameter list, if it has one. -/
structure Token where
  symbol : Char
  contents? : Option Text
  deriving DecidableEq, Repr

namespace Token

open Text ParameterList

/-- How a token stands in a sequence. -/
def text (token : Token) : Text :=
  match token.contents? with
  | none => [token.symbol]
  | some contents => token.symbol :: '(' :: (contents ++ [')'])

/-- The text of tokens that stand one after the other. -/
def textOfAll (tokens : List Token) : Text :=
  tokens.flatMap text

/-- A token may stand in front of a text: it would not take a list from it, and its own
list ends where it should. -/
def Fits (token : Token) (after : Text) : Prop :=
  match token.contents? with
  | none => after.head? ≠ some '('
  | some contents => Balanced contents

/-- The contents of the list of a token, if it has one, close all brackets they open. -/
def Closed (token : Token) : Prop :=
  match token.contents? with
  | none => True
  | some contents => Balanced contents

/-- The token at the start of a text and the text behind it. There is none at the end and
in front of a symbol with a list that does not end. -/
def first? : Text → Option (Token × Text)
  | [] => none
  | symbol :: behind =>
    match take 0 behind with
    | .error _ => none
    | .ok (contents?, after) => some (⟨symbol, contents?⟩, after)

/-- The first token is the one that the text begins with and that fits there. -/
theorem first?_eq_some_iff {whole after : Text} {token : Token} :
    first? whole = some (token, after) ↔ whole = token.text ++ after ∧ token.Fits after := by
  obtain ⟨symbol, contents?⟩ := token
  cases whole with
  | nil => cases contents? <;> simp [first?, text]
  | cons c behind =>
    have found : first? (c :: behind) = some (⟨symbol, contents?⟩, after) ↔
        c = symbol ∧ take 0 behind = .ok (contents?, after) := by
      unfold first?
      cases taken : take 0 behind with
      | error fault => simp [taken]
      | ok parts => simp [taken, Prod.ext_iff, and_assoc]
    rw [found]
    cases contents? with
    | none =>
      rw [take_eq_none_iff]
      simp only [text, Fits, List.singleton_append, List.cons.injEq]
      constructor
      · rintro ⟨rfl, bare, rfl⟩
        exact ⟨⟨rfl, rfl⟩, bare⟩
      · rintro ⟨⟨rfl, rfl⟩, bare⟩
        exact ⟨rfl, bare, rfl⟩
    | some contents =>
      rw [take_eq_some_iff]
      simp [text, Fits, and_assoc]

/-- A symbol is in front of a list that does not end, or it begins a token. -/
theorem first?_eq_none_iff {symbol : Char} {behind : Text} :
    first? (symbol :: behind) = none ↔ ∃ inside, behind = '(' :: inside ∧ Unclosed inside := by
  constructor
  · intro none
    have opens : behind.head? = some '(' := by
      apply Decidable.byContradiction
      intro bare
      have alone : first? (symbol :: behind) = some (⟨symbol, .none⟩, behind) :=
        first?_eq_some_iff.mpr ⟨rfl, bare⟩
      rw [none] at alone
      cases alone
    obtain ⟨inside, rfl⟩ := List.head?_eq_some_iff.mp opens
    refine ⟨inside, rfl, ?_⟩
    rintro contents later rfl balanced
    have ends : first? (symbol :: '(' :: (contents ++ ')' :: later)) =
        some (⟨symbol, some contents⟩, later) :=
      first?_eq_some_iff.mpr ⟨by simp [text], balanced⟩
    rw [none] at ends
    cases ends
  · rintro ⟨inside, rfl, unclosed⟩
    rw [Option.eq_none_iff_forall_ne_some]
    rintro ⟨⟨other, contents?⟩, later⟩ found
    obtain ⟨split, fits⟩ := first?_eq_some_iff.mp found
    cases contents? with
    | none =>
      obtain ⟨_, rfl⟩ := List.cons.inj split
      exact fits rfl
    | some contents =>
      have split : symbol :: '(' :: inside = other :: '(' :: (contents ++ ')' :: later) := by
        simpa [text] using split
      exact unclosed contents later (List.cons.inj (List.cons.inj split).2).2 fits

/-- The first token is the first character with what can be taken as its list. -/
theorem take_of_first? {symbol : Char} {behind after : Text} {token : Token}
    (found : first? (symbol :: behind) = some (token, after)) :
    token.symbol = symbol ∧ ∀ position, take position behind = .ok (token.contents?, after) := by
  unfold first? at found
  cases taken : take 0 behind with
  | error fault => simp [taken] at found
  | ok parts =>
    obtain ⟨contents?, rest⟩ := parts
    obtain ⟨rfl, rfl⟩ : ⟨symbol, contents?⟩ = token ∧ rest = after := by
      simpa [taken] using found
    exact ⟨rfl, fun position => (take_position position 0 behind).trans taken⟩

/-- A token has at least one character. -/
theorem length_after_lt {whole after : Text} {token : Token}
    (found : first? whole = some (token, after)) : after.length < whole.length := by
  obtain ⟨rfl, _⟩ := first?_eq_some_iff.mp found
  obtain ⟨symbol, contents?⟩ := token
  cases contents? with
  | none => simp [text]
  | some contents => simp [text]; omega

/-- The tokens of a text from left to right and the text in front of which cutting stops. -/
def cut (whole : Text) : List Token × Text :=
  match _found : first? whole with
  | none => ([], whole)
  | some (token, after) =>
    let parts := cut after
    (token :: parts.1, parts.2)
termination_by whole.length
decreasing_by exact length_after_lt _found

/-- Where there is no token nothing is cut off. -/
theorem cut_of_none {whole : Text} (none : first? whole = none) : cut whole = ([], whole) := by
  rw [cut]
  split
  · rfl
  · next found => simp [none] at found

/-- The first token is cut off and the rest is cut in the same way. -/
theorem cut_of_some {whole after : Text} {token : Token}
    (found : first? whole = some (token, after)) :
    cut whole = (token :: (cut after).1, (cut after).2) := by
  rw [cut]
  split
  · next none => simp [none] at found
  · next other behind found' =>
    obtain ⟨rfl, rfl⟩ : other = token ∧ behind = after := by simpa [found'] using found
    rfl

@[simp] theorem cut_nil : cut [] = ([], []) :=
  cut_of_none rfl

/-- The texts of the tokens and what is left make up the whole text. -/
theorem textOfAll_cut (whole : Text) : textOfAll (cut whole).1 ++ (cut whole).2 = whole := by
  fun_induction cut whole with
  | case1 whole none => rfl
  | case2 whole token after found parts ih =>
    obtain ⟨rfl, _⟩ := first?_eq_some_iff.mp found
    show (token.text ++ textOfAll (cut after).1) ++ (cut after).2 = token.text ++ after
    rw [List.append_assoc, ih]

/-- What fits in front of a text still fits when more is written behind, unless this begins
with a list. -/
theorem Fits.append {token : Token} {after more : Text} (fits : token.Fits after)
    (bare : more.head? ≠ some '(') : token.Fits (after ++ more) := by
  obtain ⟨symbol, contents?⟩ := token
  cases contents? with
  | some contents => exact fits
  | none =>
    cases after with
    | nil => exact bare
    | cons c rest => exact fits

/-- What fits somewhere is closed. -/
theorem Fits.closed {token : Token} {after : Text} (fits : token.Fits after) : token.Closed := by
  obtain ⟨symbol, contents?⟩ := token
  cases contents? with
  | none => trivial
  | some contents => exact fits

/-- A token with a list fits in front of every text, if the list ends where it should, and one
without a list in front of every text that begins with no list. -/
theorem Closed.fits {token : Token} (closed : token.Closed) {after : Text}
    (bare : token.contents? = none → after.head? ≠ some '(') : token.Fits after := by
  obtain ⟨symbol, contents?⟩ := token
  cases contents? with
  | none => exact bare rfl
  | some contents => exact closed

/-- A token without a list stands in front of no list. -/
theorem Fits.head?_ne {token : Token} {after : Text} (fits : token.Fits after)
    (none : token.contents? = none) : after.head? ≠ some '(' := by
  obtain ⟨symbol, contents?⟩ := token
  obtain rfl : contents? = .none := none
  exact fits

/-- The text of a token begins with its symbol. -/
theorem head?_text (token : Token) (after : Text) :
    (token.text ++ after).head? = some token.symbol := by
  obtain ⟨symbol, contents?⟩ := token
  cases contents? <;> rfl

/-- All tokens of a text are closed. -/
theorem closed_of_mem_cut {whole : Text} : ∀ token ∈ (cut whole).1, token.Closed := by
  fun_induction cut whole with
  | case1 whole none => simp
  | case2 whole token after found parts ih =>
    intro other among
    rcases List.mem_cons.mp among with rfl | among
    · exact (first?_eq_some_iff.mp found).2.closed
    · exact ih other among

/-- A text that is cut to its end is cut in the same way in front of another one, which is
cut as it is alone. No list of the first text reaches into the second, and the last symbol
of the first finds no list there. -/
theorem cut_append {left right : Text} (complete : (cut left).2 = [])
    (bare : right.head? ≠ some '(') :
    cut (left ++ right) = ((cut left).1 ++ (cut right).1, (cut right).2) := by
  fun_induction cut left with
  | case1 left none =>
    obtain rfl : left = [] := complete
    simp
  | case2 left token after found parts ih =>
    obtain ⟨rfl, fits⟩ := first?_eq_some_iff.mp found
    have found_ahead : first? (token.text ++ after ++ right) = some (token, after ++ right) :=
      first?_eq_some_iff.mpr ⟨List.append_assoc _ _ _, fits.append bare⟩
    rw [cut_of_some found_ahead, ih complete]
    rfl

/-- A text that closes all brackets, also those that are open in front of it, is cut to its
end. The depth in front of a text does not have to be known, because a token whose symbol
is a bracket changes it. -/
theorem complete_of_depthAfter {depth : Nat} {whole : Text}
    (reached : depthAfter depth whole = some 0) : (cut whole).2 = [] := by
  induction whole using cut.induct generalizing depth with
  | case1 whole none =>
    rw [cut_of_none none]
    cases whole with
    | nil => rfl
    | cons symbol behind =>
      obtain ⟨inside, rfl, unclosed⟩ := first?_eq_none_iff.mp none
      obtain ⟨outer, _, reached⟩ : ∃ outer, depthAfter depth [symbol] = some outer ∧
          depthAfter outer ('(' :: inside) = some 0 := by
        rw [← List.singleton_append, depthAfter_append] at reached
        exact Option.bind_eq_some_iff.mp reached
      rw [depthAfter_open, ← Nat.zero_add (outer + 1)] at reached
      obtain ⟨contents, after, split, closed, _⟩ := exists_close 0 (Nat.zero_le outer) reached
      exact absurd ((balanced_iff contents).mpr closed) (unclosed contents after split)
  | case2 whole token after found ih =>
    rw [cut_of_some found]
    rw [(first?_eq_some_iff.mp found).1, depthAfter_append] at reached
    obtain ⟨outer, _, behind⟩ := Option.bind_eq_some_iff.mp reached
    exact ih behind

end Token

end Arbor
