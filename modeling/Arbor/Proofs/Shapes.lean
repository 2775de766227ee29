import Arbor.Proofs.DecimalLists

/-!
# The shape of a text

The shape of a text says which symbols it has, in order, and how many arguments each of them
carries, but not what the arguments are. A text is regular if it can be cut into symbols to its
end and no bracket is a symbol of its own; then every bracket belongs to the list of a symbol,
and shapes of texts that stand one behind the other are shapes one behind the other.

Numbers in the place of arguments keep the shape of a regular text. So an instance of a rule
has the shape of the body of the rule, whatever the scope, and the shapes of a derivation can
be followed without looking at a single number.
-/
namespace Arbor

open Text

/-- A symbol with the number of its arguments, if it has a list. -/
structure Form where
  symbol : Char
  arguments? : Option Nat
  deriving DecidableEq, Repr

/-- The number of arguments of a list with these contents. -/
def ParameterList.count (contents : Text) : Nat :=
  match arguments 0 contents with
  | .ok pieces => pieces.length
  | .error _ => 0

/-- What is left of a token without the texts of its arguments. -/
def Token.form (token : Token) : Form :=
  ⟨token.symbol, token.contents?.map ParameterList.count⟩

namespace Text

/-- The forms of the tokens of a text. -/
def shape (text : Text) : List Form :=
  (Token.cut text).1.map Token.form

/-- How many tokens of a text have a symbol. -/
def occurrences (symbol : Char) (text : Text) : Nat :=
  ((Token.cut text).1.map Token.symbol).count symbol

/-- A text falls into tokens to its end, and no bracket is a symbol of its own. -/
def Regular (text : Text) : Prop :=
  (Token.cut text).2 = [] ∧ ∀ form ∈ text.shape, form.symbol ≠ '(' ∧ form.symbol ≠ ')'

instance (text : Text) : Decidable text.Regular :=
  inferInstanceAs (Decidable (_ ∧ _))

@[simp] theorem shape_nil : shape [] = [] := by
  simp [shape]

/-- The empty text has no symbols at all. -/
theorem regular_nil : Regular [] := by
  simp [Regular]

/-- The shape of a text begins with the form of its first token. -/
theorem shape_of_first? {text after : Text} {token : Token}
    (found : Token.first? text = some (token, after)) :
    text.shape = token.form :: after.shape := by
  rw [shape, Token.cut_of_some found]
  rfl

/-- A text is regular if its first symbol is no bracket and the text behind it is regular. -/
theorem regular_iff_of_first? {text after : Text} {token : Token}
    (found : Token.first? text = some (token, after)) :
    text.Regular ↔ (token.symbol ≠ '(' ∧ token.symbol ≠ ')') ∧ after.Regular := by
  unfold Regular
  rw [shape_of_first? found, Token.cut_of_some found, List.forall_mem_cons]
  constructor
  · rintro ⟨complete, here, later⟩
    exact ⟨here, complete, later⟩
  · rintro ⟨here, complete, later⟩
    exact ⟨complete, here, later⟩

/-- A regular text does not begin with a list. -/
theorem Regular.head?_ne {text : Text} (regular : text.Regular) : text.head? ≠ some '(' := by
  cases found : Token.first? text with
  | none =>
    have complete := regular.1
    rw [Token.cut_of_none found] at complete
    obtain rfl : text = [] := complete
    simp
  | some parts =>
    obtain ⟨token, after⟩ := parts
    obtain ⟨⟨opens, _⟩, _⟩ := (regular_iff_of_first? found).mp regular
    obtain ⟨rfl, _⟩ := Token.first?_eq_some_iff.mp found
    obtain ⟨symbol, contents?⟩ := token
    cases contents? <;> simpa [Token.text] using opens

/-- Regular texts stand one behind the other with their shapes. -/
theorem Regular.append {left right : Text} (first : left.Regular) (second : right.Regular) :
    (left ++ right).Regular ∧ shape (left ++ right) = left.shape ++ right.shape := by
  have cut := Token.cut_append first.1 second.head?_ne
  have shapes : shape (left ++ right) = left.shape ++ right.shape := by
    rw [shape, cut, List.map_append]
    rfl
  refine ⟨⟨by rw [cut, second.1], ?_⟩, shapes⟩
  intro form among
  rw [shapes] at among
  rcases List.mem_append.mp among with before | behind
  · exact first.2 form before
  · exact second.2 form behind

/-- A symbol without a list stands in front of a regular text. -/
theorem Regular.cons {c : Char} (opens : c ≠ '(') (closes : c ≠ ')') {rest : Text}
    (regular : rest.Regular) :
    Regular (c :: rest) ∧ shape (c :: rest) = ⟨c, none⟩ :: rest.shape := by
  have found : Token.first? (c :: rest) = some (⟨c, none⟩, rest) :=
    Token.first?_eq_some_iff.mpr ⟨rfl, regular.head?_ne⟩
  exact ⟨(regular_iff_of_first? found).mpr ⟨⟨opens, closes⟩, regular⟩, shape_of_first? found⟩

/-- A symbol with a list of decimal numbers stands in front of a regular text. -/
theorem Regular.cons_list {c : Char} (opens : c ≠ '(') (closes : c ≠ ')') {values : List Text}
    (decimals : ∀ value ∈ values, IsDecimal value) {rest : Text} (regular : rest.Regular) :
    Regular (c :: '(' :: (joinWith ',' values ++ ')' :: rest)) ∧
      shape (c :: '(' :: (joinWith ',' values ++ ')' :: rest)) =
        ⟨c, some values.length⟩ :: rest.shape := by
  have found : Token.first? (c :: '(' :: (joinWith ',' values ++ ')' :: rest)) =
      some (⟨c, some (joinWith ',' values)⟩, rest) :=
    Token.first?_eq_some_iff.mpr ⟨by simp [Token.text], balanced_of_decimals decimals⟩
  refine ⟨(regular_iff_of_first? found).mpr ⟨⟨opens, closes⟩, regular⟩, ?_⟩
  rw [shape_of_first? found, Token.form, Option.map_some, ParameterList.count,
    arguments_of_decimals decimals]

end Text

/-! ## Numbers in the place of arguments -/

namespace Segment

/-- How many arguments segments have does not depend on where they stand. -/
theorem length_placed (position other : Nat) (segments : List Segment) :
    (placed position segments).length = (placed other segments).length := by
  induction segments generalizing position other with
  | nil => rfl
  | cons segment segments ih =>
    cases segment with
    | symbol c => exact ih _ _
    | group arguments =>
      simp only [placed, List.length_append, List.length_zip, length_spansFrom]
      rw [ih]

/-- A regular text is made of proper segments that keep its shape when they are filled with
one decimal number for each argument. The induction follows the tokens: each of them is one
symbol, with one group behind it if it has a list. -/
theorem exists_of_regular {text : Text} (regular : text.Regular) :
    ∃ segments, (∀ segment ∈ segments, segment.Proper) ∧ textOfAll segments = text ∧
      ∀ values, (∀ value ∈ values, IsDecimal value) →
        values.length = (placed 0 segments).length →
          (fill segments values).Regular ∧ (fill segments values).shape = text.shape := by
  fun_induction Token.cut text with
  | case1 text none =>
    have complete := regular.1
    rw [Token.cut_of_none none] at complete
    obtain rfl : text = [] := complete
    exact ⟨[], by simp, rfl, fun _ _ _ => ⟨regular_nil, rfl⟩⟩
  | case2 text token after found parts ih =>
    obtain ⟨⟨opens, closes⟩, behind⟩ := (regular_iff_of_first? found).mp regular
    obtain ⟨segments, proper, rfl, filled⟩ := ih behind
    rw [shape_of_first? found]
    obtain ⟨split, fits⟩ := Token.first?_eq_some_iff.mp found
    obtain ⟨symbol, contents?⟩ := token
    have symbol_proper : (Segment.symbol symbol).Proper := ⟨opens, closes⟩
    cases contents? with
    | none =>
      refine ⟨.symbol symbol :: segments, List.forall_mem_cons.mpr ⟨symbol_proper, proper⟩,
        split.symm, ?_⟩
      intro values decimals enough
      have count : values.length = (placed 0 segments).length := by
        rw [enough]
        exact length_placed _ _ segments
      obtain ⟨kept, same⟩ := filled values decimals count
      obtain ⟨whole, shapes⟩ := kept.cons opens closes
      exact ⟨whole, by rw [← same]; exact shapes⟩
    | some contents =>
      obtain ⟨pieces, rfl, arguments⟩ := ParameterList.arguments_of_balanced fits
      refine ⟨.symbol symbol :: .group pieces :: segments,
        List.forall_mem_cons.mpr ⟨symbol_proper,
          List.forall_mem_cons.mpr ⟨⟨fits, arguments⟩, proper⟩⟩, ?_, ?_⟩
      · rw [split]
        simp [Token.text]
      · intro values decimals enough
        have count : values.length = pieces.length + (placed 0 segments).length := by
          rw [enough, length_placed _ 0]
          simp only [placed, List.length_append, List.length_zip, length_spansFrom]
          rw [length_placed _ 0, Nat.min_self]
        have here : (values.take pieces.length).length = pieces.length := by
          rw [List.length_take]
          omega
        have rest : (values.drop pieces.length).length = (placed 0 segments).length := by
          rw [List.length_drop]
          omega
        obtain ⟨kept, same⟩ := filled (values.drop pieces.length)
          (fun value among => decimals value (List.mem_of_mem_drop among)) rest
        have listed : ∀ value ∈ values.take pieces.length, IsDecimal value :=
          fun value among => decimals value (List.mem_of_mem_take among)
        obtain ⟨whole, shapes⟩ := kept.cons_list opens closes listed
        refine ⟨whole, ?_⟩
        rw [fill, fill, shapes, here, same, Token.form, Option.map_some, ParameterList.count,
          arguments]

end Segment

/-- An instance of a compiled rule with a regular body has the shape of the body. -/
theorem Rule.shape_of_instantiate {rule : Rule} (compiled : rule.toRuleText.compile = .ok rule)
    (regular : rule.body.Regular) {scope : Scope} {generator after : Generator} {written : Text}
    (given : (rule.instantiate scope).Gives generator written after) :
    written.Regular ∧ written.shape = rule.body.shape := by
  obtain ⟨segments, proper, whole, filled⟩ := Segment.exists_of_regular regular
  obtain ⟨values, _, finite, enough, rfl⟩ :=
    exists_values_of_instantiate compiled proper whole given
  exact filled _ (forall_isDecimal_map_formatNumber finite) (by rw [List.length_map, enough])

/-- A symbol that stays has one number for each of its arguments. -/
theorem Replacement.shape_flatten {symbol : Char} (opens : symbol ≠ '(') (closes : symbol ≠ ')')
    {actuals : List Float} (finite : ∀ value ∈ actuals, value.isFinite = true) :
    (flatten symbol actuals).Regular ∧
      (flatten symbol actuals).shape = [⟨symbol, some actuals.length⟩] := by
  have kept := Regular.cons_list opens closes (forall_isDecimal_map_formatNumber finite)
    regular_nil
  rwa [List.length_map, shape_nil] at kept

/-- There are as many values as a list has arguments. -/
theorem Replacement.length_of_evaluateArguments {constants : Constants} {position : Nat}
    {contents : Text} (balanced : Balanced contents) {values : List Float}
    {generator after : Generator}
    (given : (evaluateArguments constants position contents).Gives generator values after) :
    values.length = ParameterList.count contents := by
  obtain ⟨pieces, _, found⟩ := ParameterList.arguments_of_balanced balanced
  rw [evaluateArguments, found] at given
  rw [ParameterList.count, found]
  exact (finite_of_evaluatePieces given).1

/-! ## Shapes along a pass -/

namespace Grammar

variable {grammar : Grammar} {constants : Constants}

/-- The candidates for a symbol are known by the texts of the grammar. -/
theorem map_candidates (grammar : Grammar) (symbol : Char) :
    (grammar.candidates symbol).map (fun entry => (entry.1, entry.2.map Rule.toRuleText)) =
      grammar.texts.filter fun entry => entry.1.head? == some symbol := by
  rw [candidates, texts, List.filter_map]
  rfl

/-- A key with one rule is the only candidate if it is the only one by the texts. -/
theorem exists_candidate {symbol : Char} {key : Text} {text : RuleText}
    (only : (grammar.texts.filter fun entry => entry.1.head? == some symbol) = [(key, [text])]) :
    ∃ rule, grammar.candidates symbol = [(key, [rule])] ∧ rule.toRuleText = text := by
  rw [← map_candidates] at only
  obtain ⟨⟨found, rules⟩, others, listed, same, none⟩ := List.map_eq_cons_iff.mp only
  obtain rfl : others = [] := List.map_eq_nil_iff.mp none
  obtain ⟨rfl, texts⟩ := Prod.mk.inj same
  obtain ⟨rule, more, rfl, made, none⟩ := List.map_eq_cons_iff.mp texts
  obtain rfl : more = [] := List.map_eq_nil_iff.mp none
  exact ⟨rule, listed, made⟩

/-- A symbol that no key of the texts begins with has no candidates. -/
theorem candidates_eq_nil {symbol : Char}
    (none : (grammar.texts.filter fun entry => entry.1.head? == some symbol) = []) :
    grammar.candidates symbol = [] := by
  rw [← map_candidates] at none
  exact List.map_eq_nil_iff.mp none

/-- A symbol with a list that has one rule is replaced by a text with the shape of its body. -/
theorem shape_of_rule {token : Token} {key : Text} {rule : Rule}
    (only : grammar.candidates token.symbol = [(key, [rule])])
    (compiled : rule.toRuleText.compile = .ok rule) (regular : rule.body.Regular)
    (listed : token.contents? ≠ none) {position : Nat} {generator after : Generator}
    {written : Text}
    (given : (grammar.rewriteToken constants position token).Gives generator written after) :
    written.Regular ∧ written.shape = rule.body.shape := by
  obtain ⟨symbol, contents?⟩ := token
  cases contents? with
  | none => exact absurd rfl listed
  | some contents =>
    obtain ⟨actuals, between, _, given⟩ := Attempt.gives_bind_iff.mp given
    simp only [only] at given
    obtain ⟨other, among, scope, _, instantiated⟩ := Replacement.exists_instance_of_apply given
    obtain rfl : other = rule := List.mem_singleton.mp among
    exact other.shape_of_instantiate compiled regular instantiated

/-- A symbol without candidates is replaced by a text with its own form. -/
theorem shape_of_kept {token : Token} (none : grammar.candidates token.symbol = [])
    (opens : token.symbol ≠ '(') (closes : token.symbol ≠ ')') (closed : token.Closed)
    {position : Nat} {generator after : Generator} {written : Text}
    (given : (grammar.rewriteToken constants position token).Gives generator written after) :
    written.Regular ∧ written.shape = [token.form] := by
  obtain ⟨symbol, contents?⟩ := token
  cases contents? with
  | none =>
    obtain ⟨given, _⟩ := Attempt.gives_ofExcept_iff.mp given
    simp only [Replacement.ofSymbol, none, Except.ok.injEq] at given
    obtain rfl := given
    have alone := regular_nil.cons opens closes
    rwa [shape_nil] at alone
  | some contents =>
    obtain ⟨actuals, between, evaluated, given⟩ := Attempt.gives_bind_iff.mp given
    simp only [none] at given
    obtain ⟨rfl, _⟩ := Attempt.gives_pure_iff.mp given
    have kept := Replacement.shape_flatten opens closes
      (Replacement.finite_of_evaluateArguments evaluated)
    rwa [Replacement.length_of_evaluateArguments closed evaluated] at kept

/-- A pass replaces a letter by its successor. Letters stand for forms; nothing else of a token
has to be known. -/
def Replaces (grammar : Grammar) (constants : Constants) {α : Type} (form : α → Form)
    (successor : α → List α) : Prop :=
  ∀ (letter : α) (token : Token) (position : Nat) (generator after : Generator) (written : Text),
    token.form = form letter → token.Closed →
      (grammar.rewriteToken constants position token).Gives generator written after →
        written.Regular ∧ written.shape = (successor letter).map form

/-- A pass replaces the letters of a word by their successors, if it does so with every single
token. -/
theorem shape_of_rewriteTokens {α : Type} {form : α → Form} {successor : α → List α}
    (step : grammar.Replaces constants form successor)
    {tokens : List Token} {word : List α} (spelled : tokens.map Token.form = word.map form)
    (closed : ∀ token ∈ tokens, token.Closed) {position : Nat} {generator after : Generator}
    {written : Text}
    (given : (grammar.rewriteTokens constants position tokens).Gives generator written after) :
    written.Regular ∧ written.shape = (word.flatMap successor).map form := by
  induction tokens generalizing word position generator after written with
  | nil =>
    obtain rfl : word = [] := List.map_eq_nil_iff.mp spelled.symm
    obtain ⟨rfl, _⟩ := Attempt.gives_pure_iff.mp given
    exact ⟨regular_nil, shape_nil⟩
  | cons token tokens ih =>
    obtain ⟨letter, word, rfl, here, later⟩ := List.map_eq_cons_iff.mp spelled.symm
    obtain ⟨end_here, end_later⟩ := List.forall_mem_cons.mp closed
    obtain ⟨first, between, replaced, given⟩ := Attempt.gives_bind_iff.mp given
    obtain ⟨others, last, rest, given⟩ := Attempt.gives_bind_iff.mp given
    obtain ⟨rfl, _⟩ := Attempt.gives_pure_iff.mp given
    obtain ⟨first_regular, first_shape⟩ := step _ _ _ _ _ _ here.symm end_here replaced
    obtain ⟨rest_regular, rest_shape⟩ := ih later.symm end_later rest
    obtain ⟨regular, shapes⟩ := first_regular.append rest_regular
    refine ⟨regular, ?_⟩
    rw [shapes, first_shape, rest_shape, List.flatMap_cons, List.map_append]

/-- A pass over a text replaces the letters of its word by their successors. -/
theorem shape_of_rewrite {α : Type} {form : α → Form} {successor : α → List α}
    (step : grammar.Replaces constants form successor)
    {sequence written : Text} {word : List α} (spelled : sequence.shape = word.map form)
    {generator after : Generator}
    (given : (grammar.rewrite constants sequence).Gives generator written after) :
    written.Regular ∧ written.shape = (word.flatMap successor).map form := by
  rw [rewrite_eq_rewriteFrom] at given
  rw [rewriteFrom_of_complete (complete_of_rewriteFrom given)] at given
  exact shape_of_rewriteTokens step spelled Token.closed_of_mem_cut given

end Grammar

end Arbor
