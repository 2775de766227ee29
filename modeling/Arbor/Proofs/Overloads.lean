import Arbor.Proofs.Passes

/-!
# Overloaded keys

If a key has several rules, a symbol takes the first one whose guard holds for its arguments. The
guards are evaluated one after the other, each with the numbers that those before it left in the
generator. A guard that cannot be read or evaluated does not hold, and a rule without a guard is a
fault as soon as its turn comes. So a choice has three ends: a rule with a guard that holds, a rule
without a guard, or the end of the list, each of them behind rules that were passed over.

What stands behind the end of a choice plays no part in it. Other rules there, as long as there
are several in all, change neither what is written nor the generator.
-/
namespace Arbor

open Text

/-! ## Verdicts of guards -/

namespace Guard

/-- The guard with a text can be read, and all its comparisons hold. -/
def Accepts (text : Text) (scope : Scope) (generator after : Generator) : Prop :=
  ∃ guard, parse text = .ok guard ∧ (guard.holds scope).Gives generator true after

/-- The guard with a text counts as false: it cannot be read, and then nothing is drawn for it, or
one of its comparisons does not hold, or a side of a comparison has no finite value. -/
def Refuses (text : Text) (scope : Scope) (generator after : Generator) : Prop :=
  (∃ fault, parse text = .error fault ∧ generator = after) ∨
    ∃ guard, parse text = .ok guard ∧
      ((guard.holds scope).Gives generator false after ∨
        ∃ fault, (guard.holds scope).Fails generator fault after)

variable {text : Text} {scope : Scope} {generator after : Generator}

/-- The verdict on a guard that can be read is that of its comparisons, and no if there is a
fault. -/
theorem run_textHolds_of_parse {guard : Guard} (read : parse text = .ok guard) {verdict : Bool} :
    (textHolds text scope).run generator = some (verdict, after) ↔
      (guard.holds scope).Gives generator verdict after ∨
        verdict = false ∧
          ∃ fault, (guard.holds scope).Fails generator fault after := by
  rw [textHolds, read, Draw.bind_eq_some_iff]
  constructor
  · rintro ⟨result, later, held, ended⟩
    cases result with
    | ok other =>
      obtain ⟨rfl, rfl⟩ := Draw.pure_eq_some_iff.mp ended
      exact .inl held
    | error fault =>
      obtain ⟨rfl, rfl⟩ := Draw.pure_eq_some_iff.mp ended
      exact .inr ⟨rfl, fault, held⟩
  · rintro (held | ⟨rfl, fault, failed⟩)
    · exact ⟨.ok verdict, after, held, rfl⟩
    · exact ⟨.error fault, after, failed, rfl⟩

/-- A guard holds if it can be read and its comparisons hold. -/
theorem run_textHolds_eq_true_iff :
    (textHolds text scope).run generator = some (true, after) ↔
      Accepts text scope generator after := by
  unfold Accepts
  cases read : parse text with
  | error fault =>
    rw [textHolds, read]
    simp
  | ok guard => simp [run_textHolds_of_parse read]

/-- A guard does not hold if it counts as false. -/
theorem run_textHolds_eq_false_iff :
    (textHolds text scope).run generator = some (false, after) ↔
      Refuses text scope generator after := by
  unfold Refuses
  cases read : parse text with
  | error fault =>
    rw [textHolds, read]
    simp
  | ok guard => simp [run_textHolds_of_parse read]

end Guard

/-! ## Choices -/

namespace Replacement

variable {key : Text} {scope : Scope} {rules : List Rule} {generator after : Generator}

/-- Rules whose turn comes and goes: each has a guard, and none of the guards holds. -/
def PassesOver (scope : Scope) : List Rule → Generator → Generator → Prop
  | [], generator, after => generator = after
  | rule :: rules, generator, after =>
    rule.isGuarded = true ∧ ∃ between, Guard.Refuses rule.guard scope generator between ∧
      PassesOver scope rules between after

/-- The first rule whose guard holds, with its number. -/
def selectAt (key : Text) (scope : Scope) : List Rule → Attempt DerivationError (Nat × Rule)
  | [] => throw (.noGuardMatched key)
  | rule :: rules =>
    if rule.isGuarded then do
      if ← ExceptT.lift (Guard.textHolds rule.guard scope) then
        pure (0, rule)
      else do
        let (index, chosen) ← selectAt key scope rules
        pure (index + 1, chosen)
    else
      throw (.unguardedOverload key)

/-- Counting the rules changes nothing of the choice. -/
theorem select_eq (key : Text) (scope : Scope) (rules : List Rule) :
    select key scope rules = (do
      let (_, rule) ← selectAt key scope rules
      pure rule) := by
  induction rules with
  | nil => rfl
  | cons rule rules ih =>
    rw [select, selectAt]
    split
    · rw [bind_assoc]
      refine bind_congr fun verdict => ?_
      cases verdict with
      | true => simp
      | false => simp [ih]
    · rfl

/-- The choice of the first rule or of one of the others. -/
theorem gives_selectAt_cons_iff {first rule : Rule} {index : Nat} :
    (selectAt key scope (first :: rules)).Gives generator (index, rule) after ↔
      first.isGuarded = true ∧
        ((index = 0 ∧ first = rule ∧ Guard.Accepts first.guard scope generator after) ∨
          ∃ before between, index = before + 1 ∧
            Guard.Refuses first.guard scope generator between ∧
              (selectAt key scope rules).Gives between (before, rule) after) := by
  rw [selectAt]
  by_cases guarded : first.isGuarded = true
  · rw [if_pos guarded, Attempt.gives_bind_iff]
    simp only [Attempt.gives_lift_iff, guarded, true_and]
    constructor
    · rintro ⟨verdict, between, evaluated, chosen⟩
      cases verdict with
      | true =>
        obtain ⟨same, rfl⟩ := Attempt.gives_pure_iff.mp chosen
        obtain ⟨rfl, rfl⟩ := Prod.mk.inj same
        exact .inl ⟨rfl, rfl, Guard.run_textHolds_eq_true_iff.mp evaluated⟩
      | false =>
        obtain ⟨⟨before, other⟩, later, given, made⟩ := Attempt.gives_bind_iff.mp chosen
        obtain ⟨same, rfl⟩ := Attempt.gives_pure_iff.mp made
        obtain ⟨rfl, rfl⟩ := Prod.mk.inj same
        exact .inr ⟨before, between, rfl, Guard.run_textHolds_eq_false_iff.mp evaluated, given⟩
    · rintro (⟨rfl, rfl, accepts⟩ | ⟨before, between, rfl, refuses, given⟩)
      · exact ⟨true, after, Guard.run_textHolds_eq_true_iff.mpr accepts, Attempt.gives_pure _ _⟩
      · refine ⟨false, between, Guard.run_textHolds_eq_false_iff.mpr refuses, ?_⟩
        exact Attempt.gives_bind_iff.mpr ⟨_, _, given, Attempt.gives_pure _ _⟩
  · rw [if_neg guarded]
    simp [guarded]

/-- A rule is chosen if those in front of it are passed over and its own guard holds. -/
theorem gives_selectAt_iff {rule : Rule} {index : Nat} :
    (selectAt key scope rules).Gives generator (index, rule) after ↔
      rules[index]? = some rule ∧ rule.isGuarded = true ∧
        ∃ between, PassesOver scope (rules.take index) generator between ∧
          Guard.Accepts rule.guard scope between after := by
  induction rules generalizing generator index with
  | nil => simp [selectAt]
  | cons first rules ih =>
    rw [gives_selectAt_cons_iff]
    cases index with
    | zero =>
      rw [List.getElem?_cons_zero, Option.some.injEq, List.take_zero]
      constructor
      · rintro ⟨guarded, ⟨_, rfl, accepts⟩ | ⟨_, _, none, _⟩⟩
        · exact ⟨rfl, guarded, generator, rfl, accepts⟩
        · cases none
      · rintro ⟨rfl, guarded, _, rfl, accepts⟩
        exact ⟨guarded, .inl ⟨rfl, rfl, accepts⟩⟩
    | succ index =>
      simp only [List.getElem?_cons_succ, List.take_succ_cons, PassesOver]
      constructor
      · rintro ⟨guarded, ⟨none, _⟩ | ⟨before, between, same, refuses, given⟩⟩
        · cases none
        · obtain rfl := Nat.succ.inj same
          obtain ⟨listed, turn, later, passed, accepts⟩ := ih.mp given
          exact ⟨listed, turn, later, ⟨guarded, between, refuses, passed⟩, accepts⟩
      · rintro ⟨listed, turn, later, ⟨guarded, between, refuses, passed⟩, accepts⟩
        exact ⟨guarded, .inr ⟨index, between, rfl, refuses,
          ih.mpr ⟨listed, turn, later, passed, accepts⟩⟩⟩

/-- A choice ends with a fault at the first rule or behind it. -/
theorem fails_selectAt_cons_iff {first : Rule} {fault : DerivationError} :
    (selectAt key scope (first :: rules)).Fails generator fault after ↔
      (first.isGuarded = false ∧ .unguardedOverload key = fault ∧ generator = after) ∨
        first.isGuarded = true ∧ ∃ between, Guard.Refuses first.guard scope generator between ∧
          (selectAt key scope rules).Fails between fault after := by
  rw [selectAt]
  by_cases guarded : first.isGuarded = true
  · rw [if_pos guarded, Attempt.fails_bind_iff]
    simp only [Attempt.gives_lift_iff, Attempt.not_fails_lift, guarded, false_or, true_and,
      Bool.true_eq_false, false_and]
    constructor
    · rintro ⟨verdict, between, evaluated, failed⟩
      cases verdict with
      | true => simp at failed
      | false =>
        refine ⟨between, Guard.run_textHolds_eq_false_iff.mp evaluated, ?_⟩
        rcases Attempt.fails_bind_iff.mp failed with failed | ⟨_, _, _, made⟩
        · exact failed
        · simp at made
    · rintro ⟨between, refuses, failed⟩
      exact ⟨false, between, Guard.run_textHolds_eq_false_iff.mpr refuses,
        Attempt.fails_bind_iff.mpr (.inl failed)⟩
  · rw [if_neg guarded]
    simp [guarded]

/-- A choice ends with a fault if a rule without a guard stands behind rules that are passed over,
or if all rules are passed over. -/
theorem fails_selectAt_iff {fault : DerivationError} :
    (selectAt key scope rules).Fails generator fault after ↔
      (.unguardedOverload key = fault ∧ ∃ index rule, rules[index]? = some rule ∧
        rule.isGuarded = false ∧ PassesOver scope (rules.take index) generator after) ∨
        .noGuardMatched key = fault ∧ PassesOver scope rules generator after := by
  induction rules generalizing generator with
  | nil => simp [selectAt, PassesOver]
  | cons first rules ih =>
    rw [fails_selectAt_cons_iff]
    constructor
    · rintro (⟨unguarded, same, rfl⟩ | ⟨guarded, between, refuses, failed⟩)
      · exact .inl ⟨same, 0, first, rfl, unguarded, rfl⟩
      · rcases ih.mp failed with ⟨same, index, rule, listed, unguarded, passed⟩ | ⟨same, passed⟩
        · exact .inl ⟨same, index + 1, rule, listed, unguarded, guarded, between, refuses, passed⟩
        · exact .inr ⟨same, guarded, between, refuses, passed⟩
    · rintro (⟨same, index, rule, listed, unguarded, passed⟩ | ⟨same, guarded, between, refuses,
        passed⟩)
      · cases index with
        | zero =>
          obtain rfl := Option.some.inj listed
          exact .inl ⟨unguarded, same, passed⟩
        | succ index =>
          obtain ⟨guarded, between, refuses, passed⟩ := passed
          exact .inr ⟨guarded, between, refuses,
            ih.mpr (.inl ⟨same, index, rule, listed, unguarded, passed⟩)⟩
      · exact .inr ⟨guarded, between, refuses, ih.mpr (.inr ⟨same, passed⟩)⟩

/-- Rules behind the one that is chosen play no part in the choice. -/
theorem gives_selectAt_take_append {rule : Rule} {index : Nat}
    (given : (selectAt key scope rules).Gives generator (index, rule) after)
    (others : List Rule) :
    (selectAt key scope (rules.take (index + 1) ++ others)).Gives generator (index, rule) after := by
  obtain ⟨listed, guarded, between, passed, accepts⟩ := gives_selectAt_iff.mp given
  have inside : index < rules.length := (List.getElem?_eq_some_iff.mp listed).choose
  have reaches : index < (rules.take (index + 1)).length := by
    rw [List.length_take]
    omega
  refine gives_selectAt_iff.mpr ⟨?_, guarded, between, ?_, accepts⟩
  · rw [List.getElem?_append_left reaches, List.getElem?_take_of_succ, listed]
  · rw [List.take_append_of_le_length (Nat.le_of_lt reaches), List.take_take,
      Nat.min_eq_left (Nat.le_succ index)]
    exact passed

/-- Of several rules the one that is chosen is instantiated. -/
theorem apply_of_several {constants : Constants} {first : Rule} {actuals : List Float}
    (several : 2 ≤ rules.length) (heads : rules.head? = some first)
    (right : first.formals.length = actuals.length) :
    apply constants key rules actuals = (do
      let (_, rule) ← selectAt key ⟨first.formals.zip actuals, constants⟩ rules
      (rule.instantiate ⟨first.formals.zip actuals, constants⟩).mapError (.body key)) := by
  rcases rules with _ | ⟨head, _ | ⟨second, others⟩⟩
  · simp at several
  · simp at several
  · obtain rfl : head = first := Option.some.inj heads
    simp [apply, right, select_eq]

/-- Behind a choice only the instance of the rule that is chosen is left. -/
theorem outcome_apply_of_gives_selectAt {constants : Constants} {first rule : Rule}
    {actuals : List Float} {index : Nat} (several : 2 ≤ rules.length)
    (heads : rules.head? = some first) (right : first.formals.length = actuals.length)
    (given : (selectAt key ⟨first.formals.zip actuals, constants⟩ rules).Gives generator
      (index, rule) after) :
    (apply constants key rules actuals).outcome generator =
      ((rule.instantiate ⟨first.formals.zip actuals, constants⟩).mapError (.body key)).outcome
        after := by
  rw [apply_of_several several heads right]
  exact Attempt.outcome_bind_of_gives given _

/-- Rules behind the one that is chosen play no part in what takes the place of a symbol, as long
as there are several in all. -/
theorem outcome_apply_take_append {constants : Constants} {first rule : Rule}
    {actuals : List Float} {index : Nat} (several : 2 ≤ rules.length)
    (heads : rules.head? = some first) (right : first.formals.length = actuals.length)
    (given : (selectAt key ⟨first.formals.zip actuals, constants⟩ rules).Gives generator
      (index, rule) after)
    {others : List Rule} (enough : 2 ≤ (rules.take (index + 1) ++ others).length) :
    (apply constants key (rules.take (index + 1) ++ others) actuals).outcome generator =
      (apply constants key rules actuals).outcome generator := by
  have heads' : (rules.take (index + 1) ++ others).head? = some first := by
    rw [List.head?_append, List.head?_take, heads]
    rfl
  rw [outcome_apply_of_gives_selectAt several heads right given]
  exact outcome_apply_of_gives_selectAt enough heads' right (gives_selectAt_take_append given others)

/-- Instances have faults of their own only, so any other fault is one of the choice. -/
theorem fails_apply_iff_of_ne_body {constants : Constants} {first : Rule} {actuals : List Float}
    {fault : DerivationError} (several : 2 ≤ rules.length) (heads : rules.head? = some first)
    (right : first.formals.length = actuals.length) (other : ∀ cause, .body key cause ≠ fault) :
    (apply constants key rules actuals).Fails generator fault after ↔
      (selectAt key ⟨first.formals.zip actuals, constants⟩ rules).Fails generator fault after := by
  rw [apply_of_several several heads right, Attempt.fails_bind_iff]
  constructor
  · rintro (failed | ⟨_, _, _, failed⟩)
    · exact failed
    · obtain ⟨cause, _, same⟩ := Attempt.fails_mapError_iff.mp failed
      exact absurd same (other cause)
  · exact .inl

end Replacement

/-! ## Steps -/

namespace Pass

open Replacement

/-- The same state with another grammar. -/
def withGrammar (pass : Pass) (grammar : Grammar) : Pass :=
  { pass with grammar }

variable {pass : Pass} {symbol : Char} {contents behind key : Text} {rules : List Rule}
  {actuals : List Float} {generator started : Generator}

/-- A symbol with a list that begins one key only is left to the rules of this key once its
arguments have values. -/
theorem outcome_step_of_candidates
    (found : Token.first? pass.rest = some (⟨symbol, some contents⟩, behind))
    (single : pass.grammar.candidates symbol = [(key, rules)])
    (evaluated : (evaluateArguments pass.constants (pass.cursor + symbol.utf8Size + 1)
      contents).Gives generator actuals started) :
    pass.step.outcome generator = (do
      let text ← apply pass.constants key rules actuals
      pure (some (pass.advance
        (pass.cursor + byteLength (Token.text ⟨symbol, some contents⟩)) behind text))
      : Attempt DerivationError (Option (Step × Pass))).outcome started := by
  have replaced : pass.grammar.rewriteToken pass.constants pass.cursor ⟨symbol, some contents⟩ =
      evaluateArguments pass.constants (pass.cursor + symbol.utf8Size + 1) contents >>=
        apply pass.constants key rules := by
    simp only [Grammar.rewriteToken, ofSymbolWithList, single]
  rw [step_of_some found, replaced, bind_assoc]
  exact Attempt.outcome_bind_of_gives evaluated _

/-- A step of a symbol whose arguments have values fails as the rules of its key do. -/
theorem fails_step_iff_of_candidates {fault : DerivationError} {after : Generator}
    (found : Token.first? pass.rest = some (⟨symbol, some contents⟩, behind))
    (single : pass.grammar.candidates symbol = [(key, rules)])
    (evaluated : (evaluateArguments pass.constants (pass.cursor + symbol.utf8Size + 1)
      contents).Gives generator actuals started) :
    pass.step.Fails generator fault after ↔
      (apply pass.constants key rules actuals).Fails started fault after := by
  unfold Attempt.Fails
  rw [outcome_step_of_candidates found single evaluated]
  change Attempt.Fails _ _ _ _ ↔ _
  rw [Attempt.fails_bind_iff]
  simp [Attempt.Fails]

/-- A step takes no notice of a change of the grammar if the rules of the key make the same of the
arguments. -/
theorem outcome_step_withGrammar {grammar : Grammar} {others : List Rule}
    (found : Token.first? pass.rest = some (⟨symbol, some contents⟩, behind))
    (single : pass.grammar.candidates symbol = [(key, rules)])
    (evaluated : (evaluateArguments pass.constants (pass.cursor + symbol.utf8Size + 1)
      contents).Gives generator actuals started)
    (replaced : grammar.candidates symbol = [(key, others)])
    (same : (apply pass.constants key others actuals).outcome started =
      (apply pass.constants key rules actuals).outcome started) :
    (pass.withGrammar grammar).step.outcome generator = (do
      let made ← pass.step
      pure (made.map fun (step, next) => (step, next.withGrammar grammar))
      : Attempt DerivationError (Option (Step × Pass))).outcome generator := by
  let written (text : Text) := pass.advance
    (pass.cursor + byteLength (Token.text ⟨symbol, some contents⟩)) behind text
  let exchanged (text : Text) : Attempt DerivationError (Option (Step × Pass)) :=
    pure (some ((written text).1, (written text).2.withGrammar grammar))
  calc (pass.withGrammar grammar).step.outcome generator
    _ = (apply pass.constants key others actuals >>= exchanged).outcome started :=
        outcome_step_of_candidates found replaced evaluated
    _ = (apply pass.constants key rules actuals >>= exchanged).outcome started :=
        Attempt.outcome_bind_congr same exchanged
    _ = ((apply pass.constants key rules actuals >>= fun text => pure (some (written text))) >>=
          fun made => pure (made.map fun (step, next) => (step, next.withGrammar grammar))
          : Attempt DerivationError (Option (Step × Pass))).outcome started := by
        rw [bind_assoc]
        rfl
    _ = _ :=
        (Attempt.outcome_bind_congr (outcome_step_of_candidates found single evaluated) _).symm

/-- The first of several rules whose guard holds takes the place of a symbol. The symbol carries
a list and begins one key only, its arguments have values, and there are as many of them as the
key has parameters.

The step is then the choice of a rule followed by its instance. A rule is chosen if those in front
of it are passed over, with the numbers drawn for their guards, and its own guard holds. The step
fails for a rule without a guard if such a rule stands behind rules that are passed over, and for
want of a guard that holds if all rules are passed over. The rules behind the one that is chosen
can be any others, as long as there are several in all: the step writes the same text or has the
same fault, and it leaves the same generator. -/
theorem step_of_overloads {first : Rule}
    (found : Token.first? pass.rest = some (⟨symbol, some contents⟩, behind))
    (single : pass.grammar.candidates symbol = [(key, rules)])
    (several : 2 ≤ rules.length) (heads : rules.head? = some first)
    (evaluated : (evaluateArguments pass.constants (pass.cursor + symbol.utf8Size + 1)
      contents).Gives generator actuals started)
    (right : first.formals.length = actuals.length) :
    let scope : Scope := ⟨first.formals.zip actuals, pass.constants⟩
    pass.step.outcome generator = (do
        let (_, rule) ← selectAt key scope rules
        let text ← (rule.instantiate scope).mapError (.body key)
        pure (some (pass.advance
          (pass.cursor + byteLength (Token.text ⟨symbol, some contents⟩)) behind text))
        : Attempt DerivationError (Option (Step × Pass))).outcome started ∧
      (∀ index rule after, (selectAt key scope rules).Gives started (index, rule) after ↔
        rules[index]? = some rule ∧ rule.isGuarded = true ∧
          ∃ between, PassesOver scope (rules.take index) started between ∧
            Guard.Accepts rule.guard scope between after) ∧
      (∀ after, pass.step.Fails generator (.unguardedOverload key) after ↔
        ∃ index rule, rules[index]? = some rule ∧ rule.isGuarded = false ∧
          PassesOver scope (rules.take index) started after) ∧
      (∀ after, pass.step.Fails generator (.noGuardMatched key) after ↔
        PassesOver scope rules started after) ∧
      ∀ index rule after, (selectAt key scope rules).Gives started (index, rule) after →
        ∀ (others : List Rule) (grammar : Grammar),
          2 ≤ (rules.take (index + 1) ++ others).length →
          grammar.candidates symbol = [(key, rules.take (index + 1) ++ others)] →
            (pass.withGrammar grammar).step.outcome generator = (do
              let made ← pass.step
              pure (made.map fun (step, next) => (step, next.withGrammar grammar))
              : Attempt DerivationError (Option (Step × Pass))).outcome generator := by
  intro scope
  refine ⟨?_, fun _ _ _ => gives_selectAt_iff, fun after => ?_, fun after => ?_, ?_⟩
  · rw [outcome_step_of_candidates found single evaluated, apply_of_several several heads right,
      bind_assoc]
  · rw [fails_step_iff_of_candidates found single evaluated,
      fails_apply_iff_of_ne_body several heads right (by simp), fails_selectAt_iff]
    simp [scope]
  · rw [fails_step_iff_of_candidates found single evaluated,
      fails_apply_iff_of_ne_body several heads right (by simp), fails_selectAt_iff]
    simp [scope]
  · intro index rule after given others grammar enough replaced
    exact outcome_step_withGrammar found single evaluated replaced
      (outcome_apply_take_append several heads right given enough)

/-- A rule with a guard that cannot be read, one with a guard that holds of seven, and one without
a guard. -/
def ferns : List Rule :=
  [⟨⟨"F(x)".toList, "A".toList, "x<".toList⟩, []⟩, ⟨⟨"F(x)".toList, "B".toList, "x>=5".toList⟩, []⟩,
    ⟨⟨"F(x)".toList, "C".toList, []⟩, []⟩]

/-- A pass with these rules in front of a symbol with seven as its argument. -/
def beforeFern : Pass :=
  start (Grammar.empty.withRules "F(x)".toList ferns) .empty "F(7)".toList

/-- The second rule is chosen for seven, whatever stands in the place of the third one. -/
theorem step_of_overloads_ferns :
    (∃ rule, rule.body = "B".toList ∧
      (selectAt "F(x)".toList ⟨[("x".toList, 7)], .empty⟩ ferns).Gives default (1, rule) default) ∧
      ∀ (others : List Rule) (grammar : Grammar),
        grammar.candidates 'F' = [("F(x)".toList, ferns.take 2 ++ others)] →
          (beforeFern.withGrammar grammar).step.outcome default = (do
            let made ← beforeFern.step
            pure (made.map fun (step, next) => (step, next.withGrammar grammar))
            : Attempt DerivationError (Option (Step × Pass))).outcome default := by
  have found : Token.first? beforeFern.rest = some (⟨'F', some "7".toList⟩, []) := by
    decide +kernel
  have evaluated : (evaluateArguments .empty 2 "7".toList).Gives default [7] default := by
    decide +kernel
  have malformed : (Guard.textHolds "x<".toList ⟨[("x".toList, 7)], .empty⟩).run default =
      some (false, default) := by
    decide +kernel
  have holds : (Guard.textHolds "x>=5".toList ⟨[("x".toList, 7)], .empty⟩).run default =
      some (true, default) := by
    decide +kernel
  obtain ⟨_, chosen, _, _, replaced⟩ :=
    step_of_overloads found rfl (by decide) rfl evaluated (by decide +kernel)
  have passed : PassesOver ⟨[("x".toList, 7)], .empty⟩ (ferns.take 1) default default :=
    ⟨rfl, default, Guard.run_textHolds_eq_false_iff.mp malformed, rfl⟩
  have second := (chosen 1 _ default).mpr
    ⟨rfl, rfl, default, passed, Guard.run_textHolds_eq_true_iff.mp holds⟩
  exact ⟨⟨_, rfl, second⟩, fun others grammar => replaced 1 _ default second others grammar
    (by simp [ferns])⟩

end Pass

end Arbor
