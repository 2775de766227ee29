import Arbor.Proofs.CheckedTrees
import Arbor.Proofs.Derivations
import Arbor.Proofs.Tables

/-!
# Grammars under change

A grammar that was made from nothing by changes has every rule under its own key, keeps no
key without rules, and has all rules compiled from their texts. A change adds compiled rules
only, and a key goes together with its last rule; a change that fails changes nothing. So
compiling such a grammar again gives the same grammar, and a derivation never fails for its
grammar.
-/
namespace Arbor

open Text

/-- Something that changes a grammar. -/
inductive GrammarChange where
  | add (key body guard : Text)
  | edit (key : Text) (index : Nat) (body guard : Text)
  | delete (key : Text) (index : Nat)
  | define (text : Text)
  | recompile
  deriving DecidableEq, Repr

namespace Grammar

/-- Tries a change. -/
def change? (grammar : Grammar) : GrammarChange → Except RuleError Grammar
  | .add key body guard => grammar.addRule key body guard
  | .edit key index body guard => grammar.editRule key index body guard
  | .delete key index => (grammar.deleteRule key index).map Prod.snd
  | .define text => grammar.addDefinition text
  | .recompile => grammar.recompile

/-- The grammar behind a change, which is the same grammar if the change fails. -/
def change (grammar : Grammar) (change : GrammarChange) : Grammar :=
  match grammar.change? change with
  | .ok next => next
  | .error _ => grammar

/-- The grammar behind changes one after the other. -/
def changeAll (grammar : Grammar) (changes : List GrammarChange) : Grammar :=
  changes.foldl Grammar.change grammar

end Grammar

/-! ## Compiled rules -/

namespace RuleText

variable {text : RuleText} {rule : Rule}

/-- Every slot has the expression that stands in its place. -/
theorem compile_of_mem_compileSlots {index : Nat} {spans : List Span} {slots : List Slot}
    (compiled : text.compileSlots index spans = .ok slots) :
    ∀ slot ∈ slots, Expression.compile (slice text.body slot.span) = .ok slot.expression := by
  induction spans generalizing index slots with
  | nil =>
    obtain rfl : [] = slots := by simpa [compileSlots] using compiled
    simp
  | cons span spans ih =>
    unfold compileSlots at compiled
    split at compiled
    · cases compiled
    · next expression found =>
      obtain ⟨others, later, rfl⟩ := map_eq_ok_iff.mp compiled
      exact List.forall_mem_cons.mpr ⟨found, ih later⟩

/-- A compiled rule has the texts that it was compiled from. -/
theorem texts_of_compile (compiled : text.compile = .ok rule) : rule.toRuleText = text := by
  obtain ⟨_, _, _, _, rfl⟩ := compile_eq_ok_iff.mp compiled
  rfl

/-- Compiling a compiled rule again gives the same rule. -/
theorem recompile_of_compile (compiled : text.compile = .ok rule) :
    rule.recompile = .ok rule := by
  rw [Rule.recompile, texts_of_compile compiled]
  exact compiled

end RuleText

/-- The slots of a rule that compiling gives back are those of its body, each with the
expression that stands there. -/
theorem Rule.slots_of_recompile {rule : Rule} (compiled : rule.recompile = .ok rule) :
    ParameterList.slotSpans rule.body = .ok (rule.slots.map Slot.span) ∧
      ∀ slot ∈ rule.slots,
        Expression.compile (slice rule.body slot.span) = .ok slot.expression ∧
          slot.expression.source = slice rule.body slot.span := by
  obtain ⟨spans, slots, found, all, same⟩ := RuleText.compile_eq_ok_iff.mp compiled
  have slots_eq : rule.slots = slots := congrArg Rule.slots same
  rw [slots_eq, RuleText.span_of_compileSlots all]
  refine ⟨found, fun slot among => ?_⟩
  have made := RuleText.compile_of_mem_compileSlots all slot among
  exact ⟨made, Expression.source_of_compile made⟩

/-! ## Rules in order -/

/-- Rules that are kept in order under a key. -/
structure Rule.KeptUnder (key : Text) (rules : List Rule) : Prop where
  key_ne_nil : key ≠ []
  unblank : ∀ c ∈ key, isBlank c = false
  rules_ne_nil : rules ≠ []
  compiled : ∀ rule ∈ rules, rule.key = key ∧ rule.recompile = .ok rule

namespace Grammar

variable {grammar next : Grammar}

/-- Every key has rules that are kept in order. -/
def InOrder (grammar : Grammar) : Prop :=
  ∀ entry ∈ grammar.rules.entries, Rule.KeptUnder entry.1 entry.2

/-- A grammar without rules is in order. -/
theorem inOrder_empty : empty.InOrder :=
  fun _ among => absurd among List.not_mem_nil

/-- A list in order may be put under its key. -/
theorem InOrder.withRules (held : grammar.InOrder) {key : Text} {rules : List Rule}
    (kept : Rule.KeptUnder key rules) : (grammar.withRules key rules).InOrder := by
  intro entry among
  rcases Table.mem_entries_insert among with rfl | old
  · exact kept
  · exact held entry old

/-- The rules of a key are kept in order. -/
theorem InOrder.keptUnder (held : grammar.InOrder) {key : Text} {rules : List Rule}
    (found : grammar.rulesOf? key = some rules) : Rule.KeptUnder key rules :=
  held (key, rules) (Table.mem_entries_of_get? found)

/-- Nothing that is left without blanks is blank. -/
theorem isBlank_of_mem_withoutBlanks {text : Text} :
    ∀ c ∈ Text.withoutBlanks text, isBlank c = false := by
  intro c among
  simpa using (List.mem_filter.mp among).2

/-- A rule may be added. -/
theorem InOrder.addRule (held : grammar.InOrder) {key body guard : Text}
    (added : grammar.addRule key body guard = .ok next) : next.InOrder := by
  unfold Grammar.addRule at added
  dsimp only at added
  split at added
  · cases added
  · next some =>
    obtain ⟨rule, compiled, rfl⟩ := map_eq_ok_iff.mp added
    refine held.withRules ⟨?_, isBlank_of_mem_withoutBlanks, by simp, ?_⟩
    · simpa using some
    · intro other among
      rcases List.mem_append.mp among with old | new
      · cases found : grammar.rulesOf? (RuleText.withoutBlanks ⟨key, body, guard⟩).key with
        | none => simp [found] at old
        | some rules =>
          rw [found] at old
          exact (held.keptUnder found).compiled other old
      · obtain rfl : other = rule := List.mem_singleton.mp new
        exact ⟨congrArg RuleText.key (RuleText.texts_of_compile compiled),
          RuleText.recompile_of_compile compiled⟩

/-- A rule may be replaced. -/
theorem InOrder.editRule (held : grammar.InOrder) {key body guard : Text} {index : Nat}
    (edited : grammar.editRule key index body guard = .ok next) : next.InOrder := by
  unfold Grammar.editRule at edited
  dsimp only at edited
  split at edited
  · cases edited
  · next rules found =>
    split at edited
    · obtain ⟨rule, compiled, rfl⟩ := map_eq_ok_iff.mp edited
      obtain ⟨key_ne_nil, unblank, rules_ne_nil, all⟩ := held.keptUnder found
      refine held.withRules ⟨key_ne_nil, unblank, ?_, ?_⟩
      · simpa [List.set_eq_nil_iff] using rules_ne_nil
      · intro other among
        rcases List.mem_or_eq_of_mem_set among with old | rfl
        · exact all other old
        · exact ⟨congrArg RuleText.key (RuleText.texts_of_compile compiled),
            RuleText.recompile_of_compile compiled⟩
    · cases edited

/-- A rule may be taken out. The last one of a key takes the key with it, so no key is left
without rules. -/
theorem InOrder.deleteRule (held : grammar.InOrder) {key : Text} {index : Nat} {rule : Rule}
    (deleted : grammar.deleteRule key index = .ok (rule, next)) : next.InOrder := by
  unfold Grammar.deleteRule at deleted
  dsimp only at deleted
  generalize stored : (grammar.rulesOf? (Text.withoutBlanks key)).getD [] = rules at deleted
  cases rules with
  | nil => cases deleted
  | cons first others =>
    cases others with
    | nil =>
      cases deleted
      exact fun entry among => held entry (Table.mem_of_mem_entries_erase among)
    | cons second others =>
      have found : grammar.rulesOf? (Text.withoutBlanks key) = some (first :: second :: others) := by
        cases listed : grammar.rulesOf? (Text.withoutBlanks key) with
        | none => simp [listed] at stored
        | some rules => simpa [listed] using stored
      dsimp only at deleted
      split at deleted
      · cases deleted
      · next present =>
        cases deleted
        obtain ⟨key_ne_nil, unblank, _, all⟩ := held.keptUnder found
        obtain ⟨inside, _⟩ := List.getElem?_eq_some_iff.mp present
        refine held.withRules ⟨key_ne_nil, unblank, ?_, ?_⟩
        · refine List.ne_nil_of_length_pos ?_
          rw [List.length_eraseIdx_of_lt inside]
          exact Nat.succ_pos others.length
        · intro other among
          exact all other (List.mem_of_mem_eraseIdx among)

/-- A grammar of compiled rules is compiled to itself. -/
theorem recompile_eq_self (compiled : ∀ entry ∈ grammar.rules.entries, ∀ rule ∈ entry.2,
    rule.recompile = .ok rule) : grammar.recompile = .ok grammar := by
  have each : ∀ entry ∈ grammar.rules.entries, entry.2.mapM Rule.recompile = .ok entry.2 :=
    fun entry among => mapM_eq_self (compiled entry among)
  have table : grammar.rules.mapValues (fun rules => rules.mapM Rule.recompile) =
      .ok grammar.rules := by
    refine eq_of_map_eq Table.ext_entries ?_
    rw [Table.map_entries_mapValues, Table.mapEntries_eq_self each]
    rfl
  rw [recompile, table]
  rfl

/-- A grammar in order is compiled. -/
theorem InOrder.recompile_eq (held : grammar.InOrder) : grammar.recompile = .ok grammar :=
  recompile_eq_self fun entry among rule listed => ((held entry among).compiled rule listed).2

/-- A definition may be added, which is a rule without a guard. -/
theorem InOrder.addDefinition (held : grammar.InOrder) {text : Text}
    (added : grammar.addDefinition text = .ok next) : next.InOrder := by
  unfold Grammar.addDefinition at added
  split at added
  · exact held.addRule added
  · cases added

/-- A change keeps a grammar in order, whether it succeeds or fails. -/
theorem InOrder.change (held : grammar.InOrder) (change : GrammarChange) :
    (grammar.change change).InOrder := by
  unfold Grammar.change
  split
  · next next made =>
    cases change with
    | add key body guard => exact held.addRule made
    | edit key index body guard => exact held.editRule made
    | delete key index =>
      obtain ⟨⟨rule, left⟩, deleted, rfl⟩ := map_eq_ok_iff.mp made
      exact held.deleteRule deleted
    | define text => exact held.addDefinition made
    | recompile =>
      obtain rfl : grammar = next := Except.ok.inj (held.recompile_eq.symm.trans made)
      exact held
  · exact held

/-- Changes keep a grammar in order. -/
theorem InOrder.changeAll (held : grammar.InOrder) (changes : List GrammarChange) :
    (grammar.changeAll changes).InOrder := by
  induction changes generalizing grammar with
  | nil => exact held
  | cons change changes ih => exact ih (held.change change)

end Grammar

/-! ## Derivations -/

/-- A fault other than that of a grammar that does not compile. -/
def DerivationError.OfPasses (fault : DerivationError) : Prop :=
  ∀ cause, fault ≠ .grammar cause

/-- A derivation with a grammar that compiles does not fail for its grammar. -/
theorem LSystem.derive_ne_grammar {system : LSystem} {grammar : Grammar}
    (compiled : system.grammar.recompile = .ok grammar) (fresh : Generator) (start : Text)
    (count : Nat) (cause : RuleError) :
    (system.derive fresh start count).2 ≠ some (.error (.grammar cause)) := by
  intro failed
  rw [derive_snd compiled] at failed
  obtain ⟨⟨result, after⟩, reached, same⟩ := Option.map_eq_some_iff.mp failed
  obtain rfl : result = .error (.grammar cause) := same
  have faults : DerivationError.AtTokens DerivationError.OfPasses := by
    constructor
    · constructor <;> simp [DerivationError.OfPasses]
    all_goals simp [DerivationError.OfPasses]
  have brackets (position : Nat) : (DerivationError.brackets position).OfPasses := by
    simp [DerivationError.OfPasses]
  exact failsOnly_passes faults brackets count start _ _ after reached cause rfl

/-- A grammar that was made from nothing by changes, of which any may have failed, is in order
and compiled: each key is a text without blanks and has rules, and each of its rules has this
key and is what compiling its own texts gives, with the slots of its body and in every slot
the expression that stands there. Compiling the grammar again gives the same grammar, and no
derivation with it fails for the grammar. -/
theorem Grammar.inOrder_changeAll_empty (changes : List GrammarChange) :
    (∀ entry ∈ (empty.changeAll changes).rules.entries,
      entry.1 ≠ [] ∧ (∀ c ∈ entry.1, isBlank c = false) ∧ entry.2 ≠ [] ∧
        ∀ rule ∈ entry.2, rule.key = entry.1 ∧
          RuleText.compile ⟨rule.key, rule.body, rule.guard⟩ = .ok rule ∧
            ParameterList.slotSpans rule.body = .ok (rule.slots.map Slot.span) ∧
              ∀ slot ∈ rule.slots,
                Expression.compile (slice rule.body slot.span) = .ok slot.expression ∧
                  slot.expression.source = slice rule.body slot.span) ∧
      (empty.changeAll changes).recompile = .ok (empty.changeAll changes) ∧
        ∀ (system : LSystem) (fresh : Generator) (start : Text) (count : Nat) (cause : RuleError),
          ({ system with grammar := empty.changeAll changes }.derive fresh start count).2 ≠
            some (.error (.grammar cause)) := by
  have held : (empty.changeAll changes).InOrder := inOrder_empty.changeAll changes
  refine ⟨?_, held.recompile_eq, ?_⟩
  · intro entry among
    obtain ⟨key_ne_nil, unblank, rules_ne_nil, all⟩ := held entry among
    refine ⟨key_ne_nil, unblank, rules_ne_nil, ?_⟩
    intro rule listed
    obtain ⟨key, compiled⟩ := all rule listed
    exact ⟨key, compiled, Rule.slots_of_recompile compiled⟩
  · intro system fresh start count cause
    exact LSystem.derive_ne_grammar held.recompile_eq fresh start count cause

/-- Changes of which half fail: a rule is added and then edited, and another one comes and
goes with its key. -/
def GrammarChange.mixed : List GrammarChange :=
  [.add " A(x)".toList "B(x + 1)".toList [], .add " ".toList [] [],
    .edit "A(x)".toList 0 "B(x".toList [], .edit "A (x)".toList 0 "B(x,2)A(x)".toList [],
    .define "F=FF".toList, .define "F=F=F".toList, .delete "F".toList 5, .delete "F".toList 0,
    .recompile]

/-- The rule that these changes leave has the slots of the body that it was edited to. -/
theorem Grammar.inOrder_changeAll_empty_mixed :
    ∃ rules, ("A(x)".toList, rules) ∈ (empty.changeAll GrammarChange.mixed).rules.entries ∧
      ∀ rule ∈ rules, ParameterList.slotSpans rule.body = .ok (rule.slots.map Slot.span) := by
  have keys : (empty.changeAll GrammarChange.mixed).rules.keys = ["A(x)".toList] := by
    decide +kernel
  obtain ⟨⟨key, rules⟩, among, same⟩ := List.mem_map.mp (keys ▸ List.mem_singleton_self _)
  obtain rfl : key = "A(x)".toList := same
  refine ⟨rules, among, fun rule listed => ?_⟩
  exact (((inOrder_changeAll_empty _).1 _ among).2.2.2 rule listed).2.2.1

end Arbor
