import Arbor.Proofs.Arity
import Arbor.Proofs.Readability

/-!
# Lists that a step writes

At a symbol with a list a step writes either an instance of a rule or the symbol with its
arguments as numbers. In both texts every bracket that is closed again encloses decimal numbers
with commas between them. The turtle cuts a list at the same bracket and its arguments at the same
commas, so from a list that a step has written it reads the numbers that stand there, whatever
follows behind.
-/
namespace Arbor

open Text

/-! ## Groups of numbers -/

/-- Every bracket that is closed again encloses a list of decimal numbers. Other than in a text
with numeric lists, a bracket may stay open. -/
def NumericGroups (whole : Text) : Prop :=
  ∀ before contents rest, whole = before ++ '(' :: (contents ++ ')' :: rest) → Balanced contents →
    ∃ values, (∀ value ∈ values, IsDecimal value) ∧ joinWith ',' values = contents

/-- Where every bracket opens a list of decimal numbers, those that are closed do. -/
theorem NumericLists.numericGroups {whole : Text} (numeric : NumericLists whole) :
    NumericGroups whole := by
  intro before contents rest split balanced
  have taken : ParameterList.take 0 ('(' :: (contents ++ ')' :: rest)) =
      .ok (some contents, rest) :=
    ParameterList.take_eq_some_iff.mpr ⟨rfl, balanced⟩
  exact (NumericLists.of_append (split ▸ numeric)).exists_of_take taken

/-- A character in front of a balanced text closes nothing in it. -/
theorem NumericGroups.cons {c : Char} {whole : Text} (numeric : NumericGroups whole)
    (balanced : Balanced whole) : NumericGroups (c :: whole) := by
  intro before contents rest split closed
  cases before with
  | cons first before => exact numeric before contents rest (List.cons.inj split).2 closed
  | nil =>
    -- The bracket would be closed by one that has no opening bracket in the balanced text.
    obtain ⟨_, rfl⟩ := List.cons.inj split
    rw [balanced_iff, depthAfter_append, (balanced_iff contents).mp closed] at balanced
    simp at balanced

/-- A symbol that stays has a list of numbers, also if it is a bracket itself. -/
theorem Replacement.numericGroups_flatten (symbol : Char) {actuals : List Float}
    (finite : ∀ value ∈ actuals, value.isFinite = true) :
    NumericGroups (flatten symbol actuals) := by
  have decimals := forall_isDecimal_map_formatNumber finite
  have list : NumericLists ('(' :: (joinWith ',' (actuals.map formatNumber) ++ [')'])) :=
    .list decimals .nil
  exact list.numericGroups.cons (balanced_of_decimals decimals).enclosed

/-! ## What a step writes -/

/-- What takes the place of a symbol with a list has lists of numbers, if it comes from a compiled
rule or from none. -/
theorem Grammar.numericGroups_of_rewriteToken {grammar : Grammar} {constants : Constants}
    {position : Nat} {symbol : Char} {contents written : Text} {generator after : Generator}
    (compiled : ∀ origin between rule,
      (grammar.originOf constants position ⟨symbol, some contents⟩).Gives generator origin between →
        origin.rule? = some rule → rule.toRuleText.compile = .ok rule)
    (given : (grammar.rewriteToken constants position ⟨symbol, some contents⟩).Gives generator
      written after) : NumericGroups written := by
  rw [rewriteToken_eq_originOf_bind] at given
  obtain ⟨origin, between, found, given⟩ := Attempt.gives_bind_iff.mp given
  cases origin with
  | kept text =>
    obtain ⟨rfl, _⟩ := Attempt.gives_pure_iff.mp given
    obtain ⟨actuals, _, evaluated, found⟩ := Attempt.gives_bind_iff.mp found
    split at found
    · obtain ⟨_, _, _, _, _, other⟩ := Replacement.exists_of_choose found
      cases other
    · obtain ⟨same, _⟩ := Attempt.gives_pure_iff.mp found
      rw [← Origin.kept.inj same]
      exact Replacement.numericGroups_flatten symbol
        (Replacement.finite_of_evaluateArguments evaluated)
  | copied rule =>
    obtain ⟨_, _, _, _, _, _, _, _, _, _, other⟩ := of_originOfSymbolWithList found rfl
    cases other
  | instantiated key rule scope =>
    have compiles := compiled _ _ rule found rfl
    have filled := Attempt.gives_mapError_iff.mp given
    exact (rule.numericLists_of_instantiate compiles filled).numericGroups

/-- In a grammar that is kept in order every rule that is applied is compiled. -/
theorem Grammar.InOrder.compile_of_originOf {grammar : Grammar} (held : grammar.InOrder)
    {constants : Constants} {position : Nat} {token : Token} {origin : Origin} {rule : Rule}
    {generator after : Generator}
    (given : (grammar.originOf constants position token).Gives generator origin after)
    (written : origin.rule? = some rule) : rule.toRuleText.compile = .ok rule := by
  obtain ⟨symbol, contents?⟩ := token
  cases contents? with
  | none =>
    obtain ⟨given, _⟩ := Attempt.gives_ofExcept_iff.mp given
    obtain ⟨_, key, listed⟩ := of_originOfSymbol given written
    exact ((held.keptUnder_of_candidates listed).compiled rule (List.mem_singleton_self _)).2
  | some contents =>
    obtain ⟨_, _, _, _, _, listed, _, among, _⟩ := of_originOfSymbolWithList given written
    exact ((held.keptUnder_of_candidates listed).compiled rule among).2

/-- The turtle reads what a step has written at a symbol with a list, if the rule for it, when
there is one, is compiled. At every bracket that is closed again it takes the text up to there,
whatever follows, and for each argument in it, in order, the number that stands there. -/
theorem Pass.takeParameters_of_step {pass next : Pass} {step : Step} {generator after : Generator}
    {symbol : Char} {contents behind : Text}
    (found : Token.first? pass.rest = some (⟨symbol, some contents⟩, behind))
    (compiled : ∀ origin between rule,
      (pass.grammar.originOf pass.constants pass.cursor ⟨symbol, some contents⟩).Gives generator
        origin between → origin.rule? = some rule → rule.toRuleText.compile = .ok rule)
    (given : pass.step.Gives generator (some (step, next)) after) :
    ∃ written, next.output.text = pass.output.text ++ written ∧
      slice next.output.text step.emitted = written ∧
      ∀ before list rest, written = before ++ '(' :: (list ++ ')' :: rest) → Balanced list →
        ∃ pieces parameters, (∀ place, ParameterList.arguments place list = .ok pieces) ∧
          (∀ piece ∈ pieces, IsDecimal piece) ∧
          pieces.map readSingle? = parameters.map some ∧
          ∀ name position more,
            Interpretation.takeParameters name position
                ('(' :: (list ++ ')' :: (rest ++ more))) =
              .ok (some parameters, position + byteLength list + 2, rest ++ more) := by
  obtain ⟨_, none, _⟩ | ⟨token, rest, written, other, replaced, made⟩ := gives_step_iff.mp given
  · cases none
  obtain ⟨rfl, rfl⟩ : (⟨symbol, some contents⟩ : Token) = token ∧ behind = rest :=
    Prod.mk.inj (Option.some.inj (found.symm.trans other))
  obtain ⟨_, _, _, _, _, _, _, emitted⟩ := exists_parts_of_step given
  obtain ⟨_, rfl⟩ := Prod.mk.inj (Option.some.inj made)
  have output : (pass.output.append written).text = pass.output.text ++ written :=
    TextBuilder.text_append _ _
  refine ⟨written, output, ?_, ?_⟩
  · have part := slice_append pass.output.text written []
    rw [emitted]
    simpa [advance] using part
  · intro before list rest split balanced
    obtain ⟨values, decimals, rfl⟩ :=
      Grammar.numericGroups_of_rewriteToken compiled replaced before list rest split balanced
    obtain ⟨parameters, same, taken⟩ := Interpretation.exists_takeParameters decimals
    refine ⟨values, parameters, arguments_of_decimals decimals, decimals, same, ?_⟩
    intro name position more
    exact taken name position (rest ++ more)

/-- The turtle finds the quarter that a rule has written, in front of what the step has left. -/
theorem Pass.takeParameters_of_step_quarter :
    ∃ step next parameters,
      (start offshoot .empty "A(1/4)[C]".toList).step.Gives default (some (step, next)) default ∧
        next.output.text = "B(0.25)".toList ∧ [readSingle? "0.25".toList] = parameters.map some ∧
          Interpretation.takeParameters 'B' 1 "(0.25)[C]".toList =
            .ok (some parameters, 7, "[C]".toList) := by
  have found : Token.first? (start offshoot .empty "A(1/4)[C]".toList).rest =
      some (⟨'A', some "1/4".toList⟩, "[C]".toList) := by
    decide +kernel
  have replaced : (offshoot.rewriteToken .empty 0 ⟨'A', some "1/4".toList⟩).Gives default
      "B(0.25)".toList default := by
    decide +kernel
  have given := gives_step_iff.mpr (.inr ⟨_, _, _, found, replaced, rfl⟩)
  have held : offshoot.InOrder := Grammar.inOrder_empty.changeAll _
  obtain ⟨written, output, _, decoded⟩ := takeParameters_of_step found
    (fun _ _ _ origin rule => held.compile_of_originOf origin rule) given
  have whole : "B(0.25)".toList = written := output
  subst whole
  obtain ⟨pieces, parameters, list, _, same, taken⟩ :=
    decoded "B".toList "0.25".toList [] rfl (by decide)
  obtain rfl : ["0.25".toList] = pieces := Except.ok.inj (list 0)
  exact ⟨_, _, parameters, given, output, same, taken 'B' 1 "[C]".toList⟩

end Arbor
