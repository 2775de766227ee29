import Arbor.Proofs.Composition
import Arbor.Proofs.Derivations

/-!
# Derivations without an outcome

A derivation has an outcome, a sequence or a fault, unless a number has to be drawn that does
not exist. What is drawn on the way depends on what was drawn before. So the draws of an
expression are described together with the generator that they are made with, along the
evaluation from left to right: an operand draws behind those in front of it, and a guard draws
only if the guards in front of it do not hold. The description is that of some draw with a
property; the property of having no value decides whether there is an outcome.
-/
namespace Arbor

/-! ## Draws without a value -/

namespace Draw

/-- So many attempts in a row are refused. -/
def Refuses {α : Type} (attempt : Draw (Option α)) : Nat → Generator → Prop
  | 0, _ => True
  | count + 1, generator =>
    ∃ later, attempt.run generator = some (none, later) ∧ Refuses attempt count later

/-- An attempt is repeated in vain if it is refused every time. -/
theorem untilAccepted_eq_none_iff {α : Type} {attempt : Draw (Option α)}
    (answers : ∀ generator, attempt.run generator ≠ none) {count : Nat} {generator : Generator} :
    (untilAccepted attempt count).run generator = none ↔ Refuses attempt count generator := by
  induction count generalizing generator with
  | zero => exact iff_of_true rfl trivial
  | succ count ih =>
    rw [untilAccepted, bind_eq_none_iff, Refuses]
    constructor
    · rintro (stops | ⟨value?, later, drawn, stops⟩)
      · exact absurd stops (answers generator)
      · cases value? with
        | some value => cases stops
        | none => exact ⟨later, drawn, ih.mp stops⟩
    · rintro ⟨later, drawn, refused⟩
      exact .inr ⟨none, later, drawn, ih.mpr refused⟩

/-- A draw from a range that has to be finite has no value if it is not; otherwise all attempts
have to be refused. -/
theorem ranged_eq_none_iff {α : Type} {attempt : Draw (Option α)}
    (answers : ∀ generator, attempt.run generator ≠ none) {finite : Bool} {generator : Generator} :
    (if finite then untilAccepted attempt attempts else impossible : Draw α).run generator = none ↔
      finite = false ∨ Refuses attempt attempts generator := by
  cases finite with
  | false => exact iff_of_true rfl (.inl rfl)
  | true => simp [untilAccepted_eq_none_iff answers]

/-- One attempt to draw a double. -/
def tryDouble (low high : Float) : Draw (Option Float) := do
  let value := unitDouble (← word64) * (high - low) + low
  pure (if value < high then some value else none)

/-- There is no double to draw between two bounds: their distance is not finite, or all attempts
are refused. -/
def Impossible (low high : Float) (generator : Generator) : Prop :=
  (high - low).isFinite = false ∨ Refuses (tryDouble low high) attempts generator

/-- A double has no value exactly if there is none to draw. -/
theorem double_eq_none_iff {low high : Float} {generator : Generator} :
    (double low high).run generator = none ↔ Impossible low high generator := by
  have answers (generator : Generator) : (tryDouble low high).run generator ≠ none := by
    intro missing
    cases missing
  exact ranged_eq_none_iff answers

end Draw

/-! ## Expressions -/

section Draws

variable (event : Float → Float → Generator → Prop)

namespace Tree

variable (scope : Scope)

mutual

/-- In the evaluation of a tree there is a draw between two bounds and with a generator that
have a property. -/
def Draws : Tree → Generator → Prop
  | .number _, _ | .reference _, _ | .complement _, _ | .logical _ _ _, _ => False
  | .negation operand, generator => operand.Draws generator
  | .arithmetic _ left right, generator =>
    left.Draws generator ∨
      ∃ value later, (left.evaluate scope).Gives generator value later ∧ right.Draws later
  | .call name arguments, generator =>
    ∃ function, Function.named? name = some function ∧
      (DrawsAny arguments generator ∨ function = .binary .rnd ∧
        ∃ low high later, (evaluateAll scope arguments).Gives generator [low, high] later ∧
          low < high ∧ event low high later)

/-- In the evaluation of a row of trees there is such a draw. -/
def DrawsAny : List Tree → Generator → Prop
  | [], _ => False
  | tree :: rest, generator =>
    tree.Draws generator ∨
      ∃ value later, (tree.evaluate scope).Gives generator value later ∧ DrawsAny rest later

end

end Tree

end Draws

/-- Of all functions only `rnd` may have no value, for bounds between which it draws. -/
theorem Function.run_eq_none_iff {function : Function} {values : List Float} {result : Draw Float}
    (applied : function.applyTo? values = some result) {generator : Generator} :
    result.run generator = none ↔ function = .binary .rnd ∧ ∃ low high, values = [low, high] ∧
      low < high ∧ Draw.Impossible low high generator := by
  match function, values, applied with
  | .unary _, [value], rfl => simp
  | .binary .rnd, [low, high], rfl =>
    by_cases below : low < high
    · simp [BinaryFunction.apply, below, Draw.double_eq_none_iff]
    · simp [BinaryFunction.apply, below]
  | .binary .min, [_, _], rfl | .binary .max, [_, _], rfl | .binary .pow, [_, _], rfl
  | .binary .mod, [_, _], rfl | .binary .atan2, [_, _], rfl => simp [BinaryFunction.apply]

namespace Tree

variable {scope : Scope}

mutual

/-- A tree has no outcome exactly if its evaluation comes to a draw that has no value. -/
theorem stops_evaluate_iff (tree : Tree) (generator : Generator) :
    (tree.evaluate scope).Stops generator ↔ tree.Draws Draw.Impossible scope generator := by
  cases tree with
  | number value => simp [evaluate, Draws]
  | reference name =>
    rw [evaluate, Draws]
    split <;> simp
  | negation operand =>
    have below := stops_evaluate_iff operand generator
    simp [evaluate, Draws, below]
  | arithmetic operation left right =>
    have first := stops_evaluate_iff left generator
    have second := stops_evaluate_iff right
    simp [evaluate, Draws, Attempt.stops_bind_iff, first, second]
  | complement operand => simp [evaluate, Draws]
  | logical operator left right => simp [evaluate, Draws]
  | call name arguments =>
    have below := stops_evaluateAll_iff arguments generator
    rw [evaluate, Draws]
    cases named : Function.named? name with
    | none => simp
    | some function =>
      simp only [Attempt.stops_bind_iff, below, Option.some.injEq, exists_eq_left']
      refine or_congr_right ?_
      constructor
      · rintro ⟨values, later, given, stops⟩
        split at stops
        · next result applied =>
          obtain ⟨rnd, low, high, rfl, between, impossible⟩ :=
            (Function.run_eq_none_iff applied).mp (Attempt.stops_lift_iff.mp stops)
          exact ⟨rnd, low, high, later, given, between, impossible⟩
        · exact absurd stops Attempt.not_stops_throw
      · rintro ⟨rfl, low, high, later, given, between, impossible⟩
        refine ⟨[low, high], later, given, Attempt.stops_lift_iff.mpr ?_⟩
        exact (Function.run_eq_none_iff rfl).mpr ⟨rfl, low, high, rfl, between, impossible⟩

/-- A row of trees has no outcome exactly if its evaluation comes to a draw that has no value. -/
theorem stops_evaluateAll_iff (trees : List Tree) (generator : Generator) :
    (evaluateAll scope trees).Stops generator ↔ DrawsAny Draw.Impossible scope trees generator := by
  cases trees with
  | nil => simp [evaluateAll, DrawsAny]
  | cons tree rest =>
    have first := stops_evaluate_iff tree generator
    have second := stops_evaluateAll_iff rest
    simp [evaluateAll, DrawsAny, Attempt.stops_bind_iff, first, second]

end

end Tree

/-- An expression has no outcome exactly if its tree has none. -/
theorem Expression.stops_evaluate_iff {expression : Expression} {scope : Scope}
    {generator : Generator} :
    (expression.evaluate scope).Stops generator ↔
      expression.tree.Draws Draw.Impossible scope generator := by
  rw [evaluate, Attempt.stops_bind_iff, Tree.stops_evaluate_iff]
  refine or_iff_left ?_
  rintro ⟨value, later, _, stops⟩
  split at stops
  · exact Attempt.not_stops_pure stops
  · exact Attempt.not_stops_throw stops

/-! ## Guards and rules -/

section Draws

variable (event : Float → Float → Generator → Prop) (scope : Scope)

/-- In the evaluation of the expression with a text there is a draw with a property. -/
def Expression.TextDraws (text : Text) (generator : Generator) : Prop :=
  ∃ expression, compile text = .ok expression ∧ expression.tree.Draws event scope generator

/-- In the evaluation of a comparison there is such a draw. -/
def Comparison.Draws (comparison : Comparison) (generator : Generator) : Prop :=
  comparison.lhs.tree.Draws event scope generator ∨
    ∃ value later, (comparison.lhs.evaluate scope).Gives generator value later ∧
      comparison.rhs.tree.Draws event scope later

/-- In the evaluation of comparisons, up to the first one that decides, there is such a draw. -/
def Guard.AnyDraws : List Comparison → Generator → Prop
  | [], _ => False
  | comparison :: rest, generator =>
    comparison.Draws event scope generator ∨
      ∃ later, (comparison.holds scope).Gives generator true later ∧ AnyDraws rest later

/-- In the evaluation of the guard with a text there is such a draw. -/
def Guard.TextDraws (text : Text) (generator : Generator) : Prop :=
  ∃ guard, parse text = .ok guard ∧ AnyDraws event scope guard.comparisons generator

/-- In the choice of a rule by the guards there is such a draw. -/
def Replacement.ChoiceDraws : List Rule → Generator → Prop
  | [], _ => False
  | rule :: rules, generator =>
    rule.isGuarded = true ∧ (Guard.TextDraws event scope rule.guard generator ∨
      ∃ later, (Guard.textHolds rule.guard scope).run generator = some (false, later) ∧
        ChoiceDraws rules later)

/-- In the evaluation of the slots of a rule there is such a draw. -/
def Rule.Draws (rule : Rule) : Generator → Prop :=
  Draw.Encounters (fun slot => (Slot.evaluate scope slot).Gives)
    (fun slot => slot.expression.tree.Draws event scope) rule.slots

end Draws

variable {scope : Scope} {generator : Generator}

/-- A text has no value and no fault exactly if its expression has none. -/
theorem Expression.stops_evaluateText_iff {text : Text} :
    (evaluateText text scope).Stops generator ↔ TextDraws Draw.Impossible scope text generator := by
  unfold evaluateText TextDraws
  cases compile text with
  | error fault => simp
  | ok expression => simp [stops_evaluate_iff]

/-- A comparison has no outcome exactly if one of its sides has none. -/
theorem Comparison.stops_holds_iff {comparison : Comparison} :
    (comparison.holds scope).Stops generator ↔
      comparison.Draws Draw.Impossible scope generator := by
  simp [holds, Draws, Attempt.stops_bind_iff, Expression.stops_evaluate_iff]

namespace Guard

/-- Comparisons have no outcome exactly if one that is evaluated has none. -/
theorem stops_allHold_iff {comparisons : List Comparison} :
    (allHold scope comparisons).Stops generator ↔
      AnyDraws Draw.Impossible scope comparisons generator := by
  induction comparisons generalizing generator with
  | nil => simp [allHold, AnyDraws]
  | cons comparison comparisons ih =>
    simp [allHold, AnyDraws, Attempt.stops_bind_iff, Comparison.stops_holds_iff, ih]

/-- A guard neither holds nor fails to hold exactly if one of its comparisons has no outcome. -/
theorem run_textHolds_eq_none_iff {text : Text} :
    (textHolds text scope).run generator = none ↔
      TextDraws Draw.Impossible scope text generator := by
  unfold textHolds TextDraws
  cases parse text with
  | error fault => simp
  | ok guard =>
    have comparisons : (guard.holds scope).run.run generator = none ↔
        AnyDraws Draw.Impossible scope guard.comparisons generator := stops_allHold_iff
    rw [Draw.bind_eq_none_iff, comparisons]
    simp only [Except.ok.injEq, exists_eq_left']
    refine or_iff_left ?_
    rintro ⟨result, later, _, stops⟩
    cases result <;> cases stops

end Guard

namespace Replacement

/-- No rule is chosen and no fault found exactly if a guard has no outcome. -/
theorem stops_select_iff {key : Text} {rules : List Rule} :
    (select key scope rules).Stops generator ↔
      ChoiceDraws Draw.Impossible scope rules generator := by
  induction rules generalizing generator with
  | nil => simp [select, ChoiceDraws]
  | cons rule rules ih =>
    rw [select, ChoiceDraws]
    by_cases guarded : rule.isGuarded = true
    · simp [guarded, Attempt.stops_bind_iff, Attempt.stops_lift_iff, Attempt.gives_lift_iff,
        Guard.run_textHolds_eq_none_iff, ih]
    · simp [guarded]

end Replacement

/-- An instance has no outcome exactly if one of the slots has none. -/
theorem Rule.stops_instantiate_iff {rule : Rule} :
    (rule.instantiate scope).Stops generator ↔ rule.Draws Draw.Impossible scope generator := by
  rw [instantiate, fillSlots_eq]
  have slots : (rule.slots.mapM (Slot.evaluate scope)).Stops generator ↔
      rule.Draws Draw.Impossible scope generator :=
    Attempt.stops_mapM_iff.trans
      (Draw.encounters_congr fun _ _ => Expression.stops_evaluate_iff)
  simp [slots]

/-! ## Passes -/

section Draws

variable (event : Float → Float → Generator → Prop) (constants : Constants)

/-- In what the rules of a key make of arguments there is a draw with a property: in the choice
among several rules, or in the slots of the rule that is taken. -/
def Replacement.Draws (key : Text) (rules : List Rule) (actuals : List Float)
    (generator : Generator) : Prop :=
  ∃ first others, rules = first :: others ∧ first.formals.length = actuals.length ∧
    let scope : Scope := ⟨first.formals.zip actuals, constants⟩
    if others.isEmpty then
      first.Draws event scope generator
    else
      ChoiceDraws event scope rules generator ∨
        ∃ rule later, (select key scope rules).Gives generator rule later ∧
          rule.Draws event scope later

namespace Grammar

variable (grammar : Grammar)

/-- In the replacement of a token there is such a draw: in its arguments or in what the rules
of its key make of them. -/
def TokenDraws (token : Token) (generator : Generator) : Prop :=
  ∃ contents pieces, token.contents? = some contents ∧
    ParameterList.arguments 0 contents = .ok pieces ∧
      (Draw.Encounters (fun piece => (Expression.evaluateText piece ⟨[], constants⟩).Gives)
          (Expression.TextDraws event ⟨[], constants⟩) pieces generator ∨
        ∃ actuals later key rules,
          (Replacement.evaluateArguments constants 0 contents).Gives generator actuals later ∧
            grammar.candidates token.symbol = [(key, rules)] ∧
              Replacement.Draws event constants key rules actuals later)

/-- In a pass over a sequence there is such a draw. -/
def PassDraws (sequence : Text) : Generator → Prop :=
  Draw.Encounters (fun token => (grammar.rewriteToken constants 0 token).Gives)
    (grammar.TokenDraws event constants) (Token.cut sequence).1

end Grammar

/-- In one of several passes there is such a draw. -/
def LSystem.PassesDraw (grammar : Grammar) : Nat → Text → Generator → Prop
  | 0, _, _ => False
  | count + 1, sequence, generator =>
    grammar.PassDraws event constants sequence generator ∨
      ∃ next later, (grammar.rewrite constants sequence).Gives generator next later ∧
        PassesDraw grammar count next later

end Draws

variable {constants : Constants} {grammar : Grammar}

namespace Replacement

/-- Arguments have no values and no fault exactly if one of them has none. -/
theorem stops_evaluatePieces_iff {position : Nat} {pieces : List Text} :
    (evaluatePieces constants position pieces).Stops generator ↔
      Draw.Encounters (fun piece => (Expression.evaluateText piece ⟨[], constants⟩).Gives)
        (Expression.TextDraws Draw.Impossible ⟨[], constants⟩) pieces generator := by
  induction pieces generalizing position generator with
  | nil => simp [evaluatePieces, Draw.Encounters]
  | cons piece pieces ih =>
    simp [evaluatePieces, Draw.Encounters, Attempt.stops_bind_iff,
      Expression.stops_evaluateText_iff, ih]

/-- The rules of a key make nothing of arguments, not even a fault, exactly if a guard or a slot
has no outcome. -/
theorem stops_apply_iff {key : Text} {rules : List Rule} {actuals : List Float} :
    (apply constants key rules actuals).Stops generator ↔
      Draws Draw.Impossible constants key rules actuals generator := by
  cases rules with
  | nil => simp [apply, Draws]
  | cons first others =>
    unfold apply Draws
    by_cases enough : first.formals.length = actuals.length
    · by_cases alone : others = []
      · simp [enough, alone, Rule.stops_instantiate_iff]
      · simp [enough, alone, Attempt.stops_bind_iff, stops_select_iff, Rule.stops_instantiate_iff]
    · simp [enough]

end Replacement

namespace Grammar

/-- A token has no replacement and no fault exactly if an argument, a guard or a slot has no
outcome. -/
theorem stops_rewriteToken_iff {token : Token} (closed : token.Closed) {position : Nat} :
    (grammar.rewriteToken constants position token).Stops generator ↔
      grammar.TokenDraws Draw.Impossible constants token generator := by
  obtain ⟨symbol, contents?⟩ := token
  cases contents? with
  | none => simp [rewriteToken, TokenDraws]
  | some contents =>
    obtain ⟨pieces, _, found⟩ := ParameterList.arguments_of_balanced closed
    have given (place : Nat) (generator : Generator) (actuals : List Float) (later : Generator) :
        (Replacement.evaluateArguments constants place contents).Gives generator actuals later ↔
          (Replacement.evaluateArguments constants 0 contents).Gives generator actuals later := by
      rw [← Nat.zero_add place, Replacement.evaluateArguments_add closed,
        Attempt.gives_mapError_iff]
    have arguments (place : Nat) :
        (Replacement.evaluateArguments constants place contents).Stops generator ↔
          Draw.Encounters (fun piece => (Expression.evaluateText piece ⟨[], constants⟩).Gives)
            (Expression.TextDraws Draw.Impossible ⟨[], constants⟩) pieces generator := by
      rw [Replacement.evaluateArguments, found]
      exact Replacement.stops_evaluatePieces_iff
    unfold rewriteToken Replacement.ofSymbolWithList TokenDraws
    dsimp only
    rw [Attempt.stops_bind_iff, arguments]
    simp only [given, Option.some.injEq, exists_and_left, exists_eq_left', found, Except.ok.injEq]
    refine or_congr_right ?_
    refine exists_congr fun actuals => exists_congr fun later => and_congr_right fun _ => ?_
    split
    · next key rules single => simp [single, Replacement.stops_apply_iff]
    · next other =>
      refine iff_of_false Attempt.not_stops_pure ?_
      rintro ⟨key, rules, single, _⟩
      exact other key rules single

/-- Tokens have no replacements and no fault exactly if one of them has none. -/
theorem stops_rewriteTokens_iff {tokens : List Token} (closed : ∀ token ∈ tokens, token.Closed)
    {position : Nat} :
    (grammar.rewriteTokens constants position tokens).Stops generator ↔
      Draw.Encounters (fun token => (grammar.rewriteToken constants 0 token).Gives)
        (grammar.TokenDraws Draw.Impossible constants) tokens generator := by
  induction tokens generalizing position generator with
  | nil => simp [rewriteTokens, Draw.Encounters]
  | cons token tokens ih =>
    obtain ⟨here, later⟩ := List.forall_mem_cons.mp closed
    have first (generator : Generator) (written : Text) (after : Generator) :
        (grammar.rewriteToken constants position token).Gives generator written after ↔
          (grammar.rewriteToken constants 0 token).Gives generator written after := by
      rw [← Nat.zero_add position, rewriteToken_add here, Attempt.gives_mapError_iff]
    simp [rewriteTokens, Draw.Encounters, Attempt.stops_bind_iff, stops_rewriteToken_iff here,
      first, ih later]

/-- A pass has no outcome exactly if a draw on its way has no value. -/
theorem stops_rewrite_iff {sequence : Text} :
    (grammar.rewrite constants sequence).Stops generator ↔
      grammar.PassDraws Draw.Impossible constants sequence generator := by
  have last (position : Nat) (rest : Text) (generator : Generator) :
      ¬(rewriteLast position rest).Stops generator := by
    cases rest <;> simp [rewriteLast]
  rw [rewrite_eq_rewriteFrom, rewriteFrom, PassDraws]
  simp [Attempt.stops_bind_iff, last, stops_rewriteTokens_iff Token.closed_of_mem_cut]

end Grammar

namespace LSystem

/-- Passes have no outcome exactly if a draw on their way has no value. -/
theorem stops_passes_iff {count : Nat} {start : Text} :
    (passes grammar constants count start).Stops generator ↔
      PassesDraw Draw.Impossible constants grammar count start generator := by
  induction count generalizing start generator with
  | zero => simp [passes, PassesDraw]
  | succ count ih =>
    simp [passes, PassesDraw, Attempt.stops_bind_iff, Grammar.stops_rewrite_iff, ih]

/-- A derivation has no outcome exactly if its grammar compiles and a draw on the way has no
value. -/
theorem derive_eq_none_iff (system : LSystem) (fresh : Generator) (start : Text) (count : Nat) :
    (system.derive fresh start count).2 = none ↔
      ∃ grammar, system.grammar.recompile = .ok grammar ∧
        PassesDraw Draw.Impossible system.constants grammar count start
          (system.generator fresh) := by
  cases compiled : system.grammar.recompile with
  | error fault => simp [derive, compiled]
  | ok grammar =>
    rw [derive_snd compiled, Option.map_eq_none_iff]
    simp only [Except.ok.injEq, exists_eq_left']
    exact stops_passes_iff

end LSystem

end Arbor
