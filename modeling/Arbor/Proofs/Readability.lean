import Arbor.Plant.StockTree
import Arbor.Proofs.CreationOrder
import Arbor.Proofs.DecimalLists
import Arbor.Proofs.Derivations
import Arbor.Proofs.Walks

/-!
# Readable derivations

What a derivation gives is meant for the turtle, which reads the lists of turning and drawing
symbols as numbers. A pass writes numbers in the place of arguments, but not everything it
writes is a number: a body that stands for a symbol without a list is copied as it is, also
with expressions in its lists, and an opening bracket that is a symbol of its own stays in
front of whatever follows it. Both would be looked at again by a later pass, but there is none
behind the last one.

Where the last pass finds neither, all lists of its result are numeric.
-/
namespace Arbor

open Text

/-! ## What a pass writes -/

/-- Numbers in the place of all arguments make numeric lists. -/
theorem Segment.numericLists_fill {segments : List Segment}
    (proper : ∀ segment ∈ segments, segment.Proper) {values : List Text}
    (decimals : ∀ value ∈ values, IsDecimal value) : NumericLists (fill segments values) := by
  induction segments generalizing values with
  | nil => exact .nil
  | cons segment segments ih =>
    obtain ⟨here, later⟩ := List.forall_mem_cons.mp proper
    cases segment with
    | symbol c => exact .symbol here.1 (ih later decimals)
    | group arguments =>
      refine .list ?_ (ih later ?_)
      · intro value among
        exact decimals value (List.mem_of_mem_take among)
      · intro value among
        exact decimals value (List.mem_of_mem_drop among)

/-- An instance of a compiled rule has numeric lists, whatever its body has. -/
theorem Rule.numericLists_of_instantiate {rule : Rule}
    (compiled : rule.toRuleText.compile = .ok rule) {scope : Scope}
    {generator after : Generator} {written : Text}
    (given : (rule.instantiate scope).Gives generator written after) : NumericLists written := by
  obtain ⟨segments, proper, _, filled⟩ := exists_fill_of_compile compiled
  obtain ⟨values, finite, rfl⟩ := filled given
  exact Segment.numericLists_fill proper (forall_isDecimal_map_formatNumber finite)

/-- A symbol that stays has a numeric list. -/
theorem Replacement.numericLists_flatten {symbol : Char} (other : symbol ≠ '(')
    {actuals : List Float} (finite : ∀ value ∈ actuals, value.isFinite = true) :
    NumericLists (flatten symbol actuals) :=
  .symbol other (.list (forall_isDecimal_map_formatNumber finite) .nil)

namespace Grammar

variable {grammar : Grammar} {constants : Constants}

/-- Nothing but numbers is copied at a token: it is no opening bracket that is a symbol of its
own, and a body that stands for it without being filled has numeric lists. -/
def CopiesNumbersAt (grammar : Grammar) (token : Token) : Prop :=
  token.symbol ≠ '(' ∧
    (token.contents? = none → ∀ key rule, grammar.candidates token.symbol = [(key, [rule])] →
      NumericLists rule.body)

/-- A pass over a text copies no other lists than numeric ones. -/
def CopiesNumbers (grammar : Grammar) (sequence : Text) : Prop :=
  ∀ token ∈ (Token.cut sequence).1, grammar.CopiesNumbersAt token

/-- What takes the place of a symbol without a list is copied. -/
theorem numericLists_of_ofSymbol {symbol : Char} {position : Nat} {written : Text}
    (other : symbol ≠ '(')
    (body : ∀ key rule, grammar.candidates symbol = [(key, [rule])] → NumericLists rule.body)
    (given : Replacement.ofSymbol grammar symbol position = .ok written) :
    NumericLists written := by
  unfold Replacement.ofSymbol at given
  split at given
  · obtain rfl := Except.ok.inj given
    exact .symbol other .nil
  · next key rule single =>
    obtain rfl := Except.ok.inj given
    exact body key rule single
  · cases given
  · cases given

/-- What takes the place of a symbol with a list has numeric lists. -/
theorem numericLists_of_ofSymbolWithList
    (compiled : ∀ entry ∈ grammar.rules.entries, ∀ rule ∈ entry.2,
      rule.toRuleText.compile = .ok rule)
    {symbol : Char} (other : symbol ≠ '(') {position : Nat} {contents written : Text}
    {generator after : Generator}
    (given : (Replacement.ofSymbolWithList grammar constants symbol position contents).Gives
      generator written after) : NumericLists written := by
  obtain ⟨actuals, between, evaluated, given⟩ := Attempt.gives_bind_iff.mp given
  split at given
  · next key rules single =>
    have among : (key, rules) ∈ grammar.candidates symbol := by simp [single]
    obtain ⟨rule, listed, scope, _, given⟩ := Replacement.exists_instance_of_apply given
    exact rule.numericLists_of_instantiate
      (compiled _ (mem_candidates_iff.mp among).1 rule listed) given
  · obtain ⟨rfl, _⟩ := Attempt.gives_pure_iff.mp given
    exact Replacement.numericLists_flatten other
      (Replacement.finite_of_evaluateArguments evaluated)

/-- What takes the place of a token at which only numbers are copied has numeric lists. -/
theorem numericLists_of_rewriteToken
    (compiled : ∀ entry ∈ grammar.rules.entries, ∀ rule ∈ entry.2,
      rule.toRuleText.compile = .ok rule)
    {token : Token} (copies : grammar.CopiesNumbersAt token) {position : Nat}
    {generator after : Generator} {written : Text}
    (given : (grammar.rewriteToken constants position token).Gives generator written after) :
    NumericLists written := by
  obtain ⟨other, body⟩ := copies
  obtain ⟨symbol, contents?⟩ := token
  cases contents? with
  | none =>
    obtain ⟨given, _⟩ := Attempt.gives_ofExcept_iff.mp given
    exact numericLists_of_ofSymbol other (body rfl) given
  | some contents => exact numericLists_of_ofSymbolWithList compiled other given

/-- What takes the place of such tokens has numeric lists. -/
theorem numericLists_of_rewriteTokens
    (compiled : ∀ entry ∈ grammar.rules.entries, ∀ rule ∈ entry.2,
      rule.toRuleText.compile = .ok rule)
    {tokens : List Token} (copies : ∀ token ∈ tokens, grammar.CopiesNumbersAt token)
    {position : Nat} {generator after : Generator} {written : Text}
    (given : (grammar.rewriteTokens constants position tokens).Gives generator written after) :
    NumericLists written := by
  induction tokens generalizing position generator after written with
  | nil =>
    obtain ⟨rfl, _⟩ := Attempt.gives_pure_iff.mp given
    exact .nil
  | cons token tokens ih =>
    obtain ⟨here, later⟩ := List.forall_mem_cons.mp copies
    obtain ⟨first, between, replaced, given⟩ := Attempt.gives_bind_iff.mp given
    obtain ⟨others, last, rest, given⟩ := Attempt.gives_bind_iff.mp given
    obtain ⟨rfl, _⟩ := Attempt.gives_pure_iff.mp given
    exact (numericLists_of_rewriteToken compiled here replaced).append (ih later rest)

/-- A pass that copies numbers only gives a text with numeric lists. -/
theorem numericLists_of_rewrite
    (compiled : ∀ entry ∈ grammar.rules.entries, ∀ rule ∈ entry.2,
      rule.toRuleText.compile = .ok rule)
    {sequence written : Text} (copies : grammar.CopiesNumbers sequence)
    {generator after : Generator}
    (given : (grammar.rewrite constants sequence).Gives generator written after) :
    NumericLists written := by
  rw [rewrite_eq_rewriteFrom] at given
  rw [rewriteFrom_of_complete (complete_of_rewriteFrom given)] at given
  exact numericLists_of_rewriteTokens compiled copies given

end Grammar

/-! ## What the turtle reads -/

namespace Interpretation

variable {π : Type} [Part π] {interpretation : Interpretation π}

/-- On its way through a sequence an interpretation comes past a symbol that turns or draws,
and reads the contents of its list. -/
inductive Reads (interpretation : Interpretation π) (sequence : Text) : Char → Text → Prop
  | rotate {turtle : Turtle π} {position : Nat} {symbol : Char} {axis : Axis}
    {rest contents after : Text} :
    interpretation.Reaches sequence turtle position (symbol :: rest) →
      interpretation.meanings.command symbol = .rotate axis →
        ParameterList.take (position + symbol.utf8Size) rest = .ok (some contents, after) →
          Reads interpretation sequence symbol contents
  | draw {turtle : Turtle π} {position : Nat} {symbol : Char} {index : Nat}
    {rest contents after : Text} :
    interpretation.Reaches sequence turtle position (symbol :: rest) →
      interpretation.meanings.command symbol = .draw index →
        ParameterList.take (position + symbol.utf8Size) rest = .ok (some contents, after) →
          Reads interpretation sequence symbol contents

/-- What stands behind a symbol of a sequence with numeric lists has numeric lists. -/
theorem numericLists_of_reaches {sequence rest : Text} (numeric : NumericLists sequence)
    {turtle : Turtle π} {position : Nat} {symbol : Char}
    (reached : interpretation.Reaches sequence turtle position (symbol :: rest)) :
    NumericLists rest := by
  obtain ⟨before, split, _⟩ := exists_append_of_reaches reached
  exact (NumericLists.of_append (split ▸ numeric)).tail

/-- The turtle reads decimal numbers from numeric lists. -/
theorem Reads.exists_decimals {sequence contents : Text} {symbol : Char}
    (reads : interpretation.Reads sequence symbol contents) (numeric : NumericLists sequence) :
    ∃ values, (∀ value ∈ values, IsDecimal value) ∧ joinWith ',' values = contents := by
  cases reads with
  | rotate reached _ taken => exact (numericLists_of_reaches numeric reached).exists_of_take taken
  | draw reached _ taken => exact (numericLists_of_reaches numeric reached).exists_of_take taken

/-- Decimal numbers are read as they are, one parameter each. -/
theorem exists_readParameters {pieces : List Text} (decimals : ∀ piece ∈ pieces, IsDecimal piece) :
    ∃ parameters, pieces.map readSingle? = parameters.map some ∧
      ∀ symbol position, readParameters symbol position pieces = .ok parameters := by
  induction pieces with
  | nil => exact ⟨[], rfl, fun _ _ => rfl⟩
  | cons piece pieces ih =>
    obtain ⟨here, later⟩ := List.forall_mem_cons.mp decimals
    obtain ⟨value, read⟩ := here.exists_readSingle?
    obtain ⟨parameters, same, others⟩ := ih later
    refine ⟨value :: parameters, ?_, ?_⟩
    · rw [List.map_cons, List.map_cons, read, same]
    · intro symbol position
      simp only [readParameters, here.trim, read, others]
      rfl

/-- The parameters of a numeric list are taken, one for each decimal number. -/
theorem exists_takeParameters {values : List Text}
    (decimals : ∀ value ∈ values, IsDecimal value) :
    ∃ parameters, values.map readSingle? = parameters.map some ∧ ∀ symbol position rest,
      takeParameters symbol position ('(' :: (joinWith ',' values ++ ')' :: rest)) =
        .ok (some parameters, position + byteLength (joinWith ',' values) + 2, rest) := by
  obtain ⟨parameters, same, read⟩ := exists_readParameters decimals
  refine ⟨parameters, same, ?_⟩
  intro symbol position rest
  have taken : ParameterList.take position ('(' :: (joinWith ',' values ++ ')' :: rest)) =
      .ok (some (joinWith ',' values), rest) :=
    ParameterList.take_eq_some_iff.mpr ⟨rfl, balanced_of_decimals decimals⟩
  simp only [takeParameters, taken, arguments_of_decimals decimals, read]
  rfl

/-- No parameter of a numeric list is refused. -/
theorem takeParameters_ne_invalidParameter {text : Text} (numeric : NumericLists text)
    (symbol : Char) (position : Nat) {other : Char} {place : Nat} {piece : Text} :
    takeParameters symbol position text ≠ .error (.invalidParameter other place piece) := by
  cases numeric with
  | nil => simp [takeParameters, ParameterList.take]
  | symbol bare _ =>
    rw [takeParameters, ParameterList.take_of_head?_ne (by simpa using bare)]
    simp
  | @list values rest decimals _ =>
    obtain ⟨parameters, _, taken⟩ := exists_takeParameters decimals
    simp [taken]

/-- The turtle refuses no parameter of a sequence with numeric lists. -/
theorem tree_ne_invalidParameter {sequence : Text} (numeric : NumericLists sequence)
    {symbol : Char} {place : Nat} {piece : Text} :
    interpretation.tree sequence ≠ .error (.invalidParameter symbol place piece) := by
  intro failed
  obtain ⟨turtle, position, stop, rest, reached, refused⟩ :=
    finalTurtle_eq_error_iff.mp (map_eq_error_iff.mp failed)
  exact takeParameters_ne_invalidParameter (numericLists_of_reaches numeric reached) stop _
    (act_eq_invalidParameter_iff.mp refused).2

end Interpretation

namespace LSystem

/-- A derivation can be read by the turtle if its last pass copies numbers only. Whatever the
seed and the numbers drawn, every list that an interpretation reads in it consists of plain
decimal numbers, and no parameter is refused. -/
theorem readable_of_derive (system : LSystem) {grammar : Grammar}
    (compiled : system.grammar.recompile = .ok grammar) (fresh : Generator) {start : Text}
    {count : Nat}
    (copies : ∀ last between, (passes grammar system.constants count start).Gives
      (system.generator fresh) last between → grammar.CopiesNumbers last)
    {sequence : Text} (derived : (system.derive fresh start (count + 1)).2 = some (.ok sequence))
    {π : Type} [Part π] (interpretation : Interpretation π) :
    (∀ symbol contents, interpretation.Reads sequence symbol contents →
      ∃ values, (∀ value ∈ values, IsDecimal value) ∧ joinWith ',' values = contents) ∧
      ∀ symbol position piece,
        interpretation.tree sequence ≠ .error (.invalidParameter symbol position piece) := by
  obtain ⟨after, given⟩ := exists_gives_of_derive compiled derived
  rw [passes_add] at given
  obtain ⟨last, between, reached, given⟩ := Attempt.gives_bind_iff.mp given
  obtain ⟨written, _, rewritten, given⟩ := Attempt.gives_bind_iff.mp given
  obtain ⟨rfl, _⟩ := Attempt.gives_pure_iff.mp given
  have numeric := Grammar.numericLists_of_rewrite (Grammar.compile_of_recompile compiled)
    (copies last between reached) rewritten
  constructor
  · intro symbol contents reads
    exact reads.exists_decimals numeric
  · intro symbol position piece
    exact Interpretation.tree_ne_invalidParameter numeric

/-- A system with one rule that was added, and without constants and seed. -/
def ofRule (start key body : String) : Except RuleError LSystem :=
  (Grammar.empty.addRule key.toList body.toList []).map fun grammar =>
    ⟨start.toList, 1, grammar, .empty, none⟩

/-- A branch that turns by twice its number, and goes on with the next one. -/
theorem readable_of_derive_turns :
    ∃ system, ofRule "A(1)" "A(x)" "X(x*2)A(x+1)" = .ok system ∧
      (system.derive default system.start 2).2 = some (.ok "X(2)X(4)A(3)".toList) ∧
        ∀ symbol contents,
          (StockTree.interpretation none .unitY).Reads "X(2)X(4)A(3)".toList symbol contents →
            ∃ values, (∀ value ∈ values, IsDecimal value) ∧ joinWith ',' values = contents := by
  have derivations : (ofRule "A(1)" "A(x)" "X(x*2)A(x+1)").map (fun system =>
      (system.grammar.recompile.isOk, (system.derive default system.start 1).2,
        (system.derive default system.start 2).2)) =
      .ok (true, some (.ok "X(2)A(2)".toList), some (.ok "X(2)X(4)A(3)".toList)) := by
    decide +kernel
  obtain ⟨system, made, derived⟩ := map_eq_ok_iff.mp derivations
  simp only [Prod.mk.injEq] at derived
  obtain ⟨compiles, first, second⟩ := derived
  obtain ⟨grammar, compiled⟩ := exists_of_isOk compiles
  refine ⟨system, made, second, ?_⟩
  refine (readable_of_derive system compiled default ?_ second _).1
  intro last between reached
  have same : last = "X(2)A(2)".toList := by
    rw [derive_snd compiled, reached] at first
    simpa using first
  subst same
  have listed : ∀ token ∈ (Token.cut "X(2)A(2)".toList).1,
      token.symbol ≠ '(' ∧ token.contents? ≠ none := by decide +kernel
  intro token among
  obtain ⟨other, some⟩ := listed token among
  exact ⟨other, fun none => absurd none some⟩

/-- Not every derivation can be read. A body that stands for a symbol without a list is copied
with the expression in it, and so is a second list, whose opening bracket is a symbol of its
own; the turtle refuses both. -/
theorem not_readable_of_copied :
    (∃ system, ofRule "A" "A" "X(1+1)" = .ok system ∧
      (system.derive default system.start 1).2 = some (.ok "X(1+1)".toList)) ∧
    (∃ system, ofRule "A(1)(1+1)" "A(y)" "X" = .ok system ∧
      (system.derive default system.start 1).2 = some (.ok "X(1+1)".toList)) ∧
    (StockTree.interpretation none .unitY).tree "X(1+1)".toList =
      .error (.invalidParameter 'X' 2 "1+1".toList) := by
  have body : (ofRule "A" "A" "X(1+1)").map (fun system =>
      (system.derive default system.start 1).2) = .ok (some (.ok "X(1+1)".toList)) := by
    decide +kernel
  have list : (ofRule "A(1)(1+1)" "A(y)" "X").map (fun system =>
      (system.derive default system.start 1).2) = .ok (some (.ok "X(1+1)".toList)) := by
    decide +kernel
  exact ⟨map_eq_ok_iff.mp body, map_eq_ok_iff.mp list, rfl⟩

end LSystem

end Arbor
