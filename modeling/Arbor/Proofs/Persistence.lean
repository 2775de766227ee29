import Arbor.Proofs.Maintenance

/-!
# Grammars kept as texts

Of a grammar only the texts of its rules are kept, and nothing else matters: compiling reads
the texts alone, so two grammars with the same texts become the same compiled grammar or
fail in the same way, whatever was compiled in them before. The texts of a grammar stand in
the order of its keys, so the grammar made of them has the same texts again.
-/
namespace Arbor

namespace Grammar

variable {first second : Grammar}

/-- Compiling a grammar is compiling its texts. -/
theorem map_recompile (grammar : Grammar) :
    grammar.recompile.map (fun compiled => compiled.rules.entries) =
      Table.mapEntries (fun texts => texts.mapM RuleText.compile) grammar.texts := by
  have each (rules : List Rule) :
      rules.mapM Rule.recompile = (rules.map Rule.toRuleText).mapM RuleText.compile := by
    rw [List.mapM_map]
    rfl
  have step : (fun rules : List Rule => rules.mapM Rule.recompile) =
      fun rules => (rules.map Rule.toRuleText).mapM RuleText.compile := funext each
  rw [texts, Table.mapEntries_map, ← step, ← Table.map_entries_mapValues, recompile]
  cases grammar.rules.mapValues fun rules => rules.mapM Rule.recompile <;> rfl

/-- Compiling leaves all texts as they are. -/
theorem texts_of_recompile {grammar compiled : Grammar}
    (done : grammar.recompile = .ok compiled) : compiled.texts = grammar.texts := by
  have entries : Table.mapEntries (fun texts => texts.mapM RuleText.compile) grammar.texts =
      .ok compiled.rules.entries := by
    rw [← map_recompile, done]
    rfl
  refine Table.map_of_mapEntries ?_ entries
  intro texts rules listed
  exact map_of_mapM (fun _ _ => RuleText.texts_of_compile) listed

/-- Grammars with the same texts compile to the same grammar, or fail with the same fault. -/
theorem recompile_congr (same : first.texts = second.texts) :
    first.recompile = second.recompile := by
  refine @eq_of_map_eq _ _ _ _ _ (fun grammar : Grammar => grammar.rules.entries) ?_ ?_
  · intro grammar other entries
    exact congrArg Grammar.mk (Table.ext_entries entries)
  · rw [map_recompile, map_recompile, same]

/-- The grammar made of texts in the order of their keys has these texts. -/
theorem texts_ofTexts {texts : List (Text × List RuleText)}
    (ascending : texts.Pairwise fun earlier later => earlier.1 < later.1) :
    (ofTexts texts).texts = texts := by
  have entries : (ofTexts texts).rules.entries =
      texts.map fun entry => (entry.1, entry.2.map RuleText.uncompiled) :=
    Table.entries_ofList (List.pairwise_map.mpr ascending)
  have unchanged (rules : List RuleText) :
      (rules.map RuleText.uncompiled).map Rule.toRuleText = rules := by
    rw [List.map_map]
    exact List.map_id rules
  rw [Grammar.texts, entries, List.map_map]
  refine (List.map_congr_left fun entry _ => ?_).trans (List.map_id texts)
  exact congrArg (Prod.mk entry.1) (unchanged entry.2)

/-- The texts of a grammar stand in the order of its keys. -/
theorem ascending_texts (grammar : Grammar) :
    grammar.texts.Pairwise fun earlier later => earlier.1 < later.1 :=
  List.pairwise_map.mpr grammar.rules.ascending

end Grammar

namespace LSystem

/-- What a derivation gives depends on the seed, the constants and the texts of the rules, and
on the generator of the caller only if there is no seed. -/
theorem derive_snd_congr {first second : LSystem} (seed : first.seed = second.seed)
    (constants : first.constants = second.constants)
    (texts : first.grammar.texts = second.grammar.texts) {fresh other : Generator}
    (drawn : first.seed = none → fresh = other) (start : Text) (count : Nat) :
    (first.derive fresh start count).2 = (second.derive other start count).2 := by
  have compiled := Grammar.recompile_congr texts
  have generator : first.generator fresh = second.generator other := by
    rw [LSystem.generator, LSystem.generator, ← seed]
    cases fixed : first.seed with
    | none => exact drawn fixed
    | some number => rfl
  unfold derive
  rw [compiled, constants, generator]
  cases second.grammar.recompile <;> rfl

/-- Nothing is lost in a grammar that is kept as texts. A grammar that was made by changes is
what compiling the grammar of its texts gives. Two systems with the same seed and the same
constants whose rules have the same texts give the same sequence or fail with the same fault,
from every start and with any number of passes, whatever of their rules is compiled. -/
theorem determined_by_texts :
    (∀ changes : List GrammarChange,
      (Grammar.ofTexts (Grammar.empty.changeAll changes).texts).recompile =
        .ok (Grammar.empty.changeAll changes)) ∧
      ∀ first second : LSystem, first.seed = second.seed → first.constants = second.constants →
        first.grammar.texts = second.grammar.texts →
          ∀ fresh other : Generator, (first.seed = none → fresh = other) →
            ∀ (start : Text) (count : Nat),
              (first.derive fresh start count).2 = (second.derive other start count).2 := by
  constructor
  · intro changes
    have held : (Grammar.empty.changeAll changes).InOrder :=
      Grammar.inOrder_empty.changeAll changes
    rw [Grammar.recompile_congr (Grammar.texts_ofTexts (Grammar.ascending_texts _))]
    exact held.recompile_eq
  · intro first second seed constants texts fresh other drawn start count
    exact derive_snd_congr seed constants texts drawn start count

/-- A system whose rule was added derives what the system with the loaded rule derives. -/
theorem determined_by_texts_sprout :
    let grammar := Grammar.empty.changeAll [.add "A(x)".toList "B(x)[A(x+1)]".toList []]
    ({ sprout with grammar }.derive (.ofSeed 5) "A(1)".toList 2).2 =
      some (.ok "B(1)[B(2)[A(3)]]".toList) := by
  have loaded : (sprout.derive default "A(1)".toList 2).2 =
      some (.ok "B(1)[B(2)[A(3)]]".toList) := by decide +kernel
  have fixed : sprout.seed ≠ none := by decide
  intro grammar
  rw [← loaded]
  refine (determined_by_texts.2 sprout { sprout with grammar } rfl rfl ?_ _ _ ?_ _ _).symm
  · decide +kernel
  · exact fun none => absurd none fixed

end LSystem

end Arbor
