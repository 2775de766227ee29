import Arbor.Proofs.Nesting
import Arbor.Proofs.Origins
import Arbor.Proofs.Slots

/-!
# Brackets kept by a pass

A pass replaces symbols with their lists, and neither knows the brackets of the rest of
the sequence. It keeps a sequence well nested, because what takes the place of a token
does the same to the awaited brackets as the symbol of the token alone: a list that was
part of a well nested text changes nothing, and neither does the list of numbers that
takes its place or a body that is well nested itself. Only a symbol that stays can be a
bracket, and a key that begins with a bracket would let a body stand for half a pair.

The same is said for every family of brackets that has the round ones in it.
-/
namespace Arbor

open Text

variable {brackets : Brackets}

/-! ## Numbers in the place of arguments -/

/-- Numbers with commas between them have no other characters than these. -/
theorem Text.mem_numbers_of_mem_joinWith {values : List Text}
    (numbers : ∀ value ∈ values, ∀ c ∈ value, c ∈ numberCharacters) {c : Char}
    (among : c ∈ joinWith ',' values) : c ∈ ',' :: numberCharacters := by
  induction values with
  | nil => simp [joinWith] at among
  | cons value values ih =>
    obtain ⟨here, later⟩ := List.forall_mem_cons.mp numbers
    by_cases last : values = []
    · subst last
      exact List.mem_cons_of_mem ',' (here c (by simpa [joinWith] using among))
    · rw [joinWith_cons ',' value last] at among
      rcases List.mem_append.mp among with first | others
      · exact List.mem_cons_of_mem ',' (here c first)
      · rcases List.mem_cons.mp others with rfl | others
        · exact List.mem_cons_self
        · exact ih later others

/-- All texts that numbers are written as have the characters of numbers. -/
theorem forall_mem_map_formatNumber (values : List Float) :
    ∀ value ∈ values.map formatNumber, ∀ c ∈ value, c ∈ numberCharacters := by
  intro text among
  obtain ⟨value, _, rfl⟩ := List.mem_map.mp among
  intro c
  exact mem_numberCharacters_of_mem_formatNumber

/-- A list of numbers leaves the awaited brackets as they are. -/
theorem Brackets.awaitedAfter_numbers {values : List Text}
    (numbers : ∀ value ∈ values, ∀ c ∈ value, c ∈ numberCharacters) (awaited : List Char)
    (rest : Text) :
    brackets.awaitedAfter awaited ('(' :: (joinWith ',' values ++ ')' :: rest)) =
      brackets.awaitedAfter awaited rest := by
  refine awaitedAfter_plain_list ?_ awaited rest
  intro c among
  exact contains_of_numbers (mem_numbers_of_mem_joinWith numbers among)

/-- Numbers in the place of the arguments of a text keep what the text does to the awaited
brackets. -/
theorem Segment.awaitedAfter_fill {segments : List Segment}
    (proper : ∀ segment ∈ segments, segment.Proper) {values : List Text}
    (numbers : ∀ value ∈ values, ∀ c ∈ value, c ∈ numberCharacters) {awaited left : List Char}
    (reached : brackets.awaitedAfter awaited (textOfAll segments) = some left) :
    brackets.awaitedAfter awaited (fill segments values) = some left := by
  induction segments generalizing awaited values with
  | nil => exact reached
  | cons segment segments ih =>
    obtain ⟨here, later⟩ := List.forall_mem_cons.mp proper
    cases segment with
    | symbol c =>
      have split : textOfAll (.symbol c :: segments) = [c] ++ textOfAll segments := rfl
      rw [split, Brackets.awaitedAfter_append] at reached
      obtain ⟨between, first, rest⟩ := Option.bind_eq_some_iff.mp reached
      have filled : fill (.symbol c :: segments) values = [c] ++ fill segments values := rfl
      rw [filled, Brackets.awaitedAfter_append, first, Option.bind_some]
      exact ih later numbers rest
    | group arguments =>
      rw [textOfAll_group] at reached
      have rest := Brackets.awaitedAfter_list here.1 reached
      rw [fill, Brackets.awaitedAfter_numbers]
      · refine ih later ?_ rest
        intro value among
        exact numbers value (List.mem_of_mem_drop among)
      · intro value among
        exact numbers value (List.mem_of_mem_take among)

/-- An instance of a compiled rule does to the awaited brackets what the body does. -/
theorem Rule.awaitedAfter_of_instantiate {rule : Rule}
    (compiled : rule.toRuleText.compile = .ok rule) {scope : Scope}
    {generator after : Generator} {written : Text}
    (given : (rule.instantiate scope).Gives generator written after)
    {awaited left : List Char} (reached : brackets.awaitedAfter awaited rule.body = some left) :
    brackets.awaitedAfter awaited written = some left := by
  obtain ⟨segments, proper, whole, filled⟩ := exists_fill_of_compile compiled
  obtain ⟨values, _, rfl⟩ := filled given
  rw [← whole] at reached
  exact Segment.awaitedAfter_fill proper (forall_mem_map_formatNumber values) reached

/-! ## What takes the place of a token -/

/-- A grammar in which no rule can disturb the brackets of a sequence. -/
structure Grammar.Nested (brackets : Brackets) (grammar : Grammar) : Prop where
  /-- All rules are compiled. -/
  compiled : ∀ entry ∈ grammar.rules.entries, ∀ rule ∈ entry.2,
    rule.toRuleText.compile = .ok rule
  /-- The bodies are well nested. -/
  bodies : ∀ entry ∈ grammar.rules.entries, ∀ rule ∈ entry.2, brackets.WellNested rule.body
  /-- No key begins with a bracket. -/
  keys : ∀ entry ∈ grammar.rules.entries, ∀ c, entry.1.head? = some c →
    brackets.contains c = false

namespace Replacement

/-- What rules make of arguments is an instance of one of them. -/
theorem exists_instance_of_apply {constants : Constants} {key : Text} {rules : List Rule}
    {actuals : List Float} {generator after : Generator} {written : Text}
    (given : (apply constants key rules actuals).Gives generator written after) :
    ∃ rule ∈ rules, ∃ scope between, (rule.instantiate scope).Gives between written after := by
  rw [apply_eq_choose_bind] at given
  obtain ⟨origin, between, chosen, given⟩ := Attempt.gives_bind_iff.mp given
  obtain ⟨_, rule, _, among, _, rfl⟩ := exists_of_choose chosen
  exact ⟨rule, among, _, between, Attempt.gives_mapError_iff.mp given⟩

end Replacement

namespace Grammar

variable {grammar : Grammar} {constants : Constants}

/-- A candidate for a symbol is an entry whose key begins with the symbol. -/
theorem mem_candidates_iff {symbol : Char} {entry : Text × List Rule} :
    entry ∈ grammar.candidates symbol ↔
      entry ∈ grammar.rules.entries ∧ entry.1.head? = some symbol := by
  simp [candidates]

/-- A symbol that has a candidate is no bracket. -/
theorem Nested.contains_of_candidates (nested : grammar.Nested brackets) {symbol : Char}
    {entry : Text × List Rule} (among : entry ∈ grammar.candidates symbol) :
    brackets.contains symbol = false := by
  obtain ⟨listed, begins⟩ := mem_candidates_iff.mp among
  exact nested.keys entry listed symbol begins

/-- A body does nothing to the awaited brackets, as the symbol that it stands for does
nothing to them. -/
theorem Nested.awaitedAfter_body (nested : grammar.Nested brackets) {symbol : Char}
    {entry : Text × List Rule} (among : entry ∈ grammar.candidates symbol) {rule : Rule}
    (listed : rule ∈ entry.2) (awaited : List Char) :
    brackets.awaitedAfter awaited rule.body = brackets.awaitedAfter awaited [symbol] := by
  have body := nested.bodies entry (mem_candidates_iff.mp among).1 rule listed
  rw [body.awaitedAfter, Brackets.awaitedAfter_plain (nested.contains_of_candidates among),
    Brackets.awaitedAfter_nil]

/-- What takes the place of a symbol without a list does to the awaited brackets what the
symbol does. -/
theorem Nested.awaitedAfter_of_ofSymbol (nested : grammar.Nested brackets) {symbol : Char}
    {position : Nat} {written : Text}
    (given : Replacement.ofSymbol grammar symbol position = .ok written) (awaited : List Char) :
    brackets.awaitedAfter awaited written = brackets.awaitedAfter awaited [symbol] := by
  unfold Replacement.ofSymbol at given
  split at given
  · obtain rfl := Except.ok.inj given
    rfl
  · next key rule single =>
    obtain rfl := Except.ok.inj given
    have among : (key, [rule]) ∈ grammar.candidates symbol := by simp [single]
    exact nested.awaitedAfter_body among List.mem_cons_self awaited
  · cases given
  · cases given

/-- What takes the place of a symbol with a list does to the awaited brackets what the
symbol does. An instance of a rule does what its body does, and numbers in the list of a
symbol that stays do nothing. -/
theorem Nested.awaitedAfter_of_ofSymbolWithList (nested : grammar.Nested brackets)
    {symbol : Char} {position : Nat} {contents written : Text} {generator after : Generator}
    (given : (Replacement.ofSymbolWithList grammar constants symbol position contents).Gives
      generator written after) (awaited : List Char) :
    brackets.awaitedAfter awaited written = brackets.awaitedAfter awaited [symbol] := by
  obtain ⟨actuals, between, _, given⟩ := Attempt.gives_bind_iff.mp given
  split at given
  · next key rules single =>
    have among : (key, rules) ∈ grammar.candidates symbol := by simp [single]
    obtain ⟨rule, listed, scope, _, given⟩ := Replacement.exists_instance_of_apply given
    have compiled := nested.compiled _ (mem_candidates_iff.mp among).1 rule listed
    have body := nested.awaitedAfter_body among listed awaited
    have plain := nested.contains_of_candidates among
    rw [Brackets.awaitedAfter_plain plain, Brackets.awaitedAfter_nil] at body ⊢
    exact rule.awaitedAfter_of_instantiate compiled given body
  · obtain ⟨rfl, _⟩ := Attempt.gives_pure_iff.mp given
    have split : Replacement.flatten symbol actuals =
        [symbol] ++ '(' :: (joinWith ',' (actuals.map formatNumber) ++ ')' :: []) := rfl
    have numbers (between : List Char) :=
      @Brackets.awaitedAfter_numbers brackets _ (forall_mem_map_formatNumber actuals) between []
    rw [split, Brackets.awaitedAfter_append]
    simp only [numbers, Brackets.awaitedAfter_nil]
    exact Option.bind_fun_some _

/-- What takes the place of a token does to the awaited brackets what its symbol does. -/
theorem Nested.awaitedAfter_of_rewriteToken (nested : grammar.Nested brackets) {token : Token}
    {position : Nat} {generator after : Generator} {written : Text}
    (given : (grammar.rewriteToken constants position token).Gives generator written after)
    (awaited : List Char) :
    brackets.awaitedAfter awaited written = brackets.awaitedAfter awaited [token.symbol] := by
  obtain ⟨symbol, contents?⟩ := token
  cases contents? with
  | none =>
    obtain ⟨given, _⟩ := Attempt.gives_ofExcept_iff.mp given
    exact nested.awaitedAfter_of_ofSymbol given awaited
  | some contents => exact nested.awaitedAfter_of_ofSymbolWithList given awaited

end Grammar

/-! ## A whole pass -/

/-- The list of a token may be left out of a walk that comes to the end of the text. -/
theorem Token.awaitedAfter_text {token : Token} (closed : token.Closed)
    {awaited left : List Char} {rest : Text}
    (reached : brackets.awaitedAfter awaited (token.text ++ rest) = some left) :
    ∃ between, brackets.awaitedAfter awaited [token.symbol] = some between ∧
      brackets.awaitedAfter between rest = some left := by
  obtain ⟨symbol, contents?⟩ := token
  cases contents? with
  | none =>
    rw [text, Brackets.awaitedAfter_append] at reached
    exact Option.bind_eq_some_iff.mp reached
  | some contents =>
    have split : text ⟨symbol, some contents⟩ ++ rest =
        [symbol] ++ '(' :: (contents ++ ')' :: rest) := by simp [text]
    rw [split, Brackets.awaitedAfter_append] at reached
    obtain ⟨between, first, behind⟩ := Option.bind_eq_some_iff.mp reached
    exact ⟨between, first, Brackets.awaitedAfter_list closed behind⟩

namespace Grammar

variable {grammar : Grammar} {constants : Constants}

/-- What takes the place of tokens does to the awaited brackets what their text does. -/
theorem Nested.awaitedAfter_of_rewriteTokens (nested : grammar.Nested brackets)
    {tokens : List Token} (closed : ∀ token ∈ tokens, token.Closed) {position : Nat}
    {generator after : Generator} {written : Text}
    (given : (grammar.rewriteTokens constants position tokens).Gives generator written after)
    {awaited left : List Char}
    (reached : brackets.awaitedAfter awaited (Token.textOfAll tokens) = some left) :
    brackets.awaitedAfter awaited written = some left := by
  induction tokens generalizing position generator after written awaited with
  | nil =>
    obtain ⟨rfl, _⟩ := Attempt.gives_pure_iff.mp given
    exact reached
  | cons token tokens ih =>
    obtain ⟨here, later⟩ := List.forall_mem_cons.mp closed
    obtain ⟨first, between, replaced, given⟩ := Attempt.gives_bind_iff.mp given
    obtain ⟨others, last, rest, given⟩ := Attempt.gives_bind_iff.mp given
    obtain ⟨rfl, _⟩ := Attempt.gives_pure_iff.mp given
    obtain ⟨awaited', symbol, behind⟩ := token.awaitedAfter_text here reached
    rw [Brackets.awaitedAfter_append, nested.awaitedAfter_of_rewriteToken replaced, symbol]
    exact ih later rest behind

/-- A pass keeps a sequence well nested. -/
theorem Nested.wellNested_of_rewrite (nested : grammar.Nested brackets) {sequence written : Text}
    {generator after : Generator} (start : brackets.WellNested sequence)
    (given : (grammar.rewrite constants sequence).Gives generator written after) :
    brackets.WellNested written := by
  rw [rewrite_eq_rewriteFrom] at given
  have complete := complete_of_rewriteFrom given
  have whole := Token.textOfAll_cut sequence
  rw [complete, List.append_nil] at whole
  rw [rewriteFrom_of_complete complete] at given
  refine nested.awaitedAfter_of_rewriteTokens Token.closed_of_mem_cut given ?_
  rw [whole]
  exact start

end Grammar

end Arbor
