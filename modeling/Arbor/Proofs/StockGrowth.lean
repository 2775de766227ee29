import Arbor.Proofs.Acceptance
import Arbor.Proofs.Branching
import Mathlib.Data.List.Count

/-!
# The growth of the stock tree

A sequence of the stock tree is a word of eight symbols, each with a fixed number of arguments.
A pass replaces a split point by a joint and two branches, each with a split point of its own,
and every other symbol by itself. The words do not depend on the constants, on the seed or on
the numbers drawn, so the number of each symbol behind any number of passes follows from the
number of split points, which doubles in every pass.

Behind the first pass all lists are numeric, and the turtle of the stock tree accepts every
symbol of the word. It adds one node for each trunk, each joint and each cluster of leaves.
-/
namespace Arbor.StockTree

open Text

/-! ## Words -/

/-- The symbols of the stock tree. -/
inductive Symbol where
  | trunk
  | split
  | joint
  | leaves
  | xTurn
  | yTurn
  | opening
  | closing
  deriving DecidableEq, Repr

namespace Symbol

/-- How a symbol is written. -/
def form : Symbol → Form
  | .trunk => ⟨'D', some 7⟩
  | .split => ⟨'S', some 7⟩
  | .joint => ⟨'J', some 3⟩
  | .leaves => ⟨'L', some 10⟩
  | .xTurn => ⟨'X', some 1⟩
  | .yTurn => ⟨'Y', some 1⟩
  | .opening => ⟨'[', none⟩
  | .closing => ⟨']', none⟩

/-- A branch with a split point at its end. -/
def branch : List Symbol :=
  [.opening, .xTurn, .yTurn, .trunk, .split, .leaves, .closing]

/-- What a pass replaces a symbol by. -/
def successor : Symbol → List Symbol
  | .split => .joint :: (branch ++ branch)
  | symbol => [symbol]

/-- The number of nodes that a symbol adds to the tree. -/
def nodes : Symbol → Nat
  | .trunk | .joint | .leaves => 1
  | .split | .xTurn | .yTurn | .opening | .closing => 0

/-- Different symbols begin with different characters. -/
theorem injective_symbol_form : Function.Injective fun symbol : Symbol => symbol.form.symbol := by
  intro first second same
  cases first <;> cases second <;> first | rfl | exact absurd same (by decide)

/-- Only a split point changes the number of a symbol. -/
theorem count_flatMap_successor (symbol : Symbol) (word : List Symbol) :
    (word.flatMap successor).count symbol =
      (if symbol = .split then 0 else word.count symbol) +
        (successor .split).count symbol * word.count .split := by
  induction word with
  | nil => simp
  | cons first word ih =>
    rw [List.flatMap_cons, List.count_append, ih]
    by_cases splits : first = .split
    · subst splits
      by_cases same : symbol = .split
      · subst same
        rw [if_pos rfl, if_pos rfl, List.count_cons_self, Nat.mul_succ]
        omega
      · rw [if_neg same, if_neg same, List.count_cons_of_ne (Ne.symm same), List.count_cons_self,
          Nat.mul_succ]
        omega
    · have kept : successor first = [first] := by
        cases first <;> first | rfl | exact absurd rfl splits
      rw [kept, List.count_cons_of_ne splits]
      by_cases same : symbol = .split
      · subst same
        have absent : [first].count split = 0 :=
          List.count_eq_zero.mpr (by simpa using Ne.symm splits)
        rw [if_pos rfl, if_pos rfl, absent, Nat.zero_add]
      · rw [if_neg same, if_neg same, ← Nat.add_assoc, ← List.count_append,
          List.singleton_append]

end Symbol

/-- The word behind a number of passes. -/
def word : Nat → List Symbol
  | 0 => [.trunk, .split]
  | count + 1 => (word count).flatMap Symbol.successor

/-- The split points double in every pass. -/
theorem count_split_word (count : Nat) : (word count).count .split = 2 ^ count := by
  induction count with
  | zero => rfl
  | succ count ih =>
    rw [word, Symbol.count_flatMap_successor, if_pos rfl, ih, Nat.pow_succ]
    have twice : (Symbol.successor .split).count .split = 2 := by decide
    rw [twice, Nat.zero_add, Nat.mul_comm]

/-- Every other symbol comes as often as split points were replaced, each time as often as it
stands in what replaces one. -/
theorem count_word (symbol : Symbol) (other : symbol ≠ .split) (count : Nat) :
    (word count).count symbol =
      (word 0).count symbol + (Symbol.successor .split).count symbol * (2 ^ count - 1) := by
  induction count with
  | zero => simp
  | succ count ih =>
    have positive := Nat.two_pow_pos count
    have replaced : 2 ^ (count + 1) - 1 = (2 ^ count - 1) + 2 ^ count := by
      rw [Nat.pow_succ]
      omega
    rw [replaced, Nat.mul_add, ← Nat.add_assoc, ← ih, ← count_split_word]
    exact (Symbol.count_flatMap_successor symbol (word count)).trans (by rw [if_neg other])

/-- The numbers of the other symbols in closed form. -/
theorem counts_word (count : Nat) :
    (word count).count .trunk = 2 ^ (count + 1) - 1 ∧ (word count).count .joint = 2 ^ count - 1 ∧
      (word count).count .leaves = 2 ^ (count + 1) - 2 ∧
        (word count).count .opening = 2 ^ (count + 1) - 2 ∧
          (word count).count .closing = 2 ^ (count + 1) - 2 := by
  have positive := Nat.two_pow_pos count
  have twice : 2 ^ (count + 1) = 2 * 2 ^ count := Nat.pow_succ'
  have trunks : (word count).count .trunk = 1 + 2 * (2 ^ count - 1) :=
    count_word .trunk (by decide) count
  have joints : (word count).count .joint = 0 + 1 * (2 ^ count - 1) :=
    count_word .joint (by decide) count
  have leaves : (word count).count .leaves = 0 + 2 * (2 ^ count - 1) :=
    count_word .leaves (by decide) count
  have openings : (word count).count .opening = 0 + 2 * (2 ^ count - 1) :=
    count_word .opening (by decide) count
  have closings : (word count).count .closing = 0 + 2 * (2 ^ count - 1) :=
    count_word .closing (by decide) count
  omega

/-- One node belongs to each trunk, each joint and each cluster of leaves. -/
theorem sum_nodes (word : List Symbol) :
    (word.map Symbol.nodes).sum = word.count .trunk + word.count .joint + word.count .leaves := by
  induction word with
  | nil => rfl
  | cons symbol word ih =>
    rw [List.map_cons, List.sum_cons, ih]
    cases symbol <;> simp [Symbol.nodes] <;> omega

/-! ## The rules -/

/-- The text of a cluster of leaves. -/
def leafText : Text :=
  "L(LeafMinCount,LeafMaxCount,LeafMinLength,LeafMaxLength,LeafMinWidth,LeafMaxWidth,".toList ++
    "LeafMinXRot,LeafMaxXRot,LeafMinZRot,LeafMaxZRot)".toList

/-- The text of a branch that is turned by two angles. -/
def branchText (xRotation yRotation : Text) : Text :=
  "[X(".toList ++ xRotation ++ ")Y(".toList ++ yRotation ++ ")".toList ++
    "D(x*TrunkGrowthRate,y*TrunkGrowthRate,z,w,t,f,s)S(x,y,z,w,t,f,s)".toList ++ leafText ++
      "]".toList

/-- The text of what a split point becomes. -/
def splitText : Text :=
  "J(x*TrunkGrowthRate,w,t)".toList ++
    branchText "-PI/8+TrunkSplitMaxXRot+rnd(TrunkSplitMinXRot,TrunkSplitMaxXRot)".toList
      "-PI/8+TrunkSplitMaxYRot+rnd(TrunkSplitMinYRot,TrunkSplitMaxYRot)".toList ++
    branchText "PI/8+TrunkSplitMinXRot+rnd(TrunkSplitMinXRot,TrunkSplitMaxXRot)".toList
      "-PI/8+rnd(TrunkSplitMinYRot,TrunkSplitMaxYRot)".toList

/-- The text of a branch is made of the texts of its parts. -/
theorem toList_branch (xRotation yRotation : String) :
    (branch xRotation yRotation).toList = branchText xRotation.toList yRotation.toList := by
  have leaves : leaf.toList = leafText := String.toList_append
  unfold branch branchText
  rw [← leaves]
  repeat rw [String.toList_append]

/-- What a split point becomes is put together from short texts. -/
theorem toList_split : split.toList = splitText := by
  unfold split splitText
  rw [String.toList_append, String.toList_append, toList_branch, toList_branch]

/-- The rule of a symbol, if it has one. -/
def Symbol.rule? : Symbol → Option RuleText
  | .trunk =>
    some ⟨"D(x,y,z,w,t,f,s)".toList, "D(x+TrunkWidth,y+TrunkWidth,z,w,t,f,s)".toList, []⟩
  | .joint => some ⟨"J(x,y,z)".toList, "J(x+TrunkWidth*1.25,y,z)".toList, []⟩
  | .split => some ⟨"S(x,y,z,w,t,f,s)".toList, splitText, []⟩
  | .leaves | .xTurn | .yTurn | .opening | .closing => none

/-- The texts of the stock grammar in the order of the keys. -/
def ruleTexts : List (Text × List RuleText) :=
  ([.trunk, .joint, .split].filterMap Symbol.rule?).map fun text => (text.key, [text])

/-- Compiling the stock grammar leaves the texts of its rules. -/
theorem map_grammar :
    grammar.map (fun grammar => grammar.recompile.map Grammar.texts) = .ok (.ok ruleTexts) := by
  unfold grammar
  rw [toList_split]
  decide +kernel

/-- The stock system compiles. -/
theorem exists_grammar {base : LSystem} (stock : system = .ok base) :
    base.start = start.toList ∧
      ∃ grammar, base.grammar.recompile = .ok grammar ∧ grammar.texts = ruleTexts := by
  obtain ⟨rules, made, rfl⟩ := map_eq_ok_iff.mp stock
  obtain ⟨other, same, compiled⟩ := map_eq_ok_iff.mp map_grammar
  obtain rfl : other = rules := Except.ok.inj (same.symm.trans made)
  refine ⟨?_, map_eq_ok_iff.mp compiled⟩
  dsimp only

namespace Symbol

/-- The keys that begin with a symbol. -/
theorem filter_ruleTexts (symbol : Symbol) :
    (ruleTexts.filter fun entry => entry.1.head? == some symbol.form.symbol) =
      (symbol.rule?.map fun text => (text.key, [text])).toList := by
  cases symbol <;> rfl

/-- The body of a rule spells what a pass replaces the symbol by, and its branches end. -/
theorem shape_body {symbol : Symbol} {text : RuleText} (listed : symbol.rule? = some text) :
    (text.body.Regular ∧ Brackets.branches.WellNested text.body) ∧
      text.body.shape = symbol.successor.map form := by
  cases symbol with
  | trunk | joint =>
    obtain rfl := Option.some.inj listed
    decide +kernel
  | split =>
    obtain rfl := Option.some.inj listed
    decide +kernel
  | leaves | xTurn | yTurn | opening | closing => cases listed

/-- The key of a rule begins with no bracket. -/
theorem contains_key {symbol : Symbol} {text : RuleText} (listed : symbol.rule? = some text)
    {c : Char} (begins : text.key.head? = some c) : Brackets.branches.contains c = false := by
  cases symbol with
  | trunk | joint | split =>
    obtain rfl := Option.some.inj listed
    obtain rfl := Option.some.inj begins
    decide
  | leaves | xTurn | yTurn | opening | closing => cases listed

/-- A symbol without a rule stands for itself. -/
theorem successor_eq {symbol : Symbol} (none : symbol.rule? = none) :
    symbol.successor = [symbol] := by
  cases symbol <;> first | rfl | cases none

/-- No symbol is a bracket of a list. -/
theorem symbol_form_ne (symbol : Symbol) :
    symbol.form.symbol ≠ '(' ∧ symbol.form.symbol ≠ ')' := by
  cases symbol <;> decide

/-- A symbol with a rule has a list. -/
theorem arguments?_form_ne {symbol : Symbol} (some : symbol.rule? ≠ none) :
    symbol.form.arguments? ≠ none := by
  cases symbol <;> simp [form, rule?] at some ⊢

end Symbol

/-- The start spells a trunk and a split point, and all its brackets match. -/
theorem shape_start :
    (Text.Regular start.toList ∧ Brackets.branches.WellNested start.toList) ∧
      Text.shape start.toList = (word 0).map Symbol.form := by
  unfold start
  rw [String.toList_append]
  decide +kernel

/-! ## Passes -/

section Passes

variable {grammar : Grammar} {constants : Constants}

/-- A pass over the stock grammar replaces a symbol by its successor. -/
theorem replaces_symbols (texts : grammar.texts = ruleTexts)
    (compiled : ∀ entry ∈ grammar.rules.entries, ∀ rule ∈ entry.2,
      rule.toRuleText.compile = .ok rule) :
    grammar.Replaces constants Symbol.form Symbol.successor := by
  intro symbol token position generator after written same closed given
  have begins : token.symbol = symbol.form.symbol := congrArg Form.symbol same
  have keys := symbol.filter_ruleTexts
  rw [← texts, ← begins] at keys
  cases listed : symbol.rule? with
  | none =>
    obtain ⟨opens, closes⟩ := symbol.symbol_form_ne
    rw [← begins] at opens closes
    rw [listed] at keys
    have kept := Grammar.shape_of_kept (Grammar.candidates_eq_nil keys) opens closes closed given
    rw [Symbol.successor_eq listed, List.map_singleton, ← same]
    exact kept
  | some text =>
    rw [listed] at keys
    obtain ⟨rule, only, rfl⟩ := Grammar.exists_candidate keys
    obtain ⟨⟨regular, _⟩, shape⟩ := Symbol.shape_body listed
    have carries : token.contents? ≠ none := by
      intro none
      have arguments : token.form.arguments? = Option.none := by rw [Token.form, none]; rfl
      rw [same] at arguments
      exact Symbol.arguments?_form_ne (by simp [listed]) arguments
    have among : (rule.key, [rule]) ∈ grammar.candidates token.symbol := by
      rw [only]
      exact List.mem_singleton_self _
    have ready := compiled _ (Grammar.mem_candidates_iff.mp among).1 rule (by simp)
    rw [← shape]
    exact Grammar.shape_of_rule only ready regular carries given

/-- The stock grammar copies no lists, since its symbols without a list have no rule. -/
theorem copiesNumbers (texts : grammar.texts = ruleTexts) {sequence : Text}
    {symbols : List Symbol} (spelled : sequence.shape = symbols.map Symbol.form) :
    grammar.CopiesNumbers sequence := by
  intro token among
  have form : token.form ∈ symbols.map Symbol.form := by
    rw [← spelled]
    exact List.mem_map_of_mem among
  obtain ⟨symbol, _, same⟩ := List.mem_map.mp form
  have begins : symbol.form.symbol = token.symbol := congrArg Form.symbol same
  refine ⟨begins ▸ symbol.symbol_form_ne.1, ?_⟩
  intro bare key rule single
  have arguments : symbol.form.arguments? = none := by
    rw [same, Token.form, bare]
    rfl
  have keys := symbol.filter_ruleTexts
  rw [← texts, begins] at keys
  by_cases listed : symbol.rule? = none
  · rw [listed] at keys
    rw [Grammar.candidates_eq_nil keys] at single
    cases single
  · exact absurd arguments (Symbol.arguments?_form_ne listed)

/-- A sequence behind any number of passes spells the word behind this number, and behind the
first pass all its lists are numeric. The induction goes back from the last pass. -/
theorem spells_of_passes (texts : grammar.texts = ruleTexts)
    (compiled : ∀ entry ∈ grammar.rules.entries, ∀ rule ∈ entry.2,
      rule.toRuleText.compile = .ok rule)
    {count : Nat} {generator after : Generator} {sequence : Text}
    (given : (LSystem.passes grammar constants count start.toList).Gives generator sequence
      after) :
    sequence.Regular ∧ sequence.shape = (word count).map Symbol.form ∧
      (0 < count → NumericLists sequence) := by
  induction count generalizing after sequence with
  | zero =>
    obtain ⟨rfl, _⟩ := Attempt.gives_pure_iff.mp given
    obtain ⟨⟨regular, _⟩, shape⟩ := shape_start
    exact ⟨regular, shape, fun positive => absurd positive (Nat.lt_irrefl 0)⟩
  | succ count ih =>
    rw [LSystem.passes_add] at given
    obtain ⟨last, between, reached, given⟩ := Attempt.gives_bind_iff.mp given
    obtain ⟨written, _, rewritten, given⟩ := Attempt.gives_bind_iff.mp given
    obtain ⟨rfl, _⟩ := Attempt.gives_pure_iff.mp given
    obtain ⟨_, spelled, _⟩ := ih reached
    obtain ⟨regular, shape⟩ :=
      Grammar.shape_of_rewrite (replaces_symbols texts compiled) spelled rewritten
    have numeric := Grammar.numericLists_of_rewrite compiled (copiesNumbers texts spelled)
      rewritten
    exact ⟨regular, shape, fun _ => numeric⟩

/-- The stock grammar keeps brackets nested. -/
theorem nested_branches (texts : grammar.texts = ruleTexts)
    (compiled : ∀ entry ∈ grammar.rules.entries, ∀ rule ∈ entry.2,
      rule.toRuleText.compile = .ok rule) : grammar.Nested .branches := by
  have listed : ∀ entry ∈ grammar.rules.entries, ∃ symbol text, Symbol.rule? symbol = some text ∧
      (text.key, [text]) = (entry.1, entry.2.map Rule.toRuleText) := by
    intro entry among
    have there : (entry.1, entry.2.map Rule.toRuleText) ∈ ruleTexts := by
      rw [← texts]
      exact List.mem_map_of_mem among
    obtain ⟨text, made, same⟩ := List.mem_map.mp there
    obtain ⟨symbol, _, listed⟩ := List.mem_filterMap.mp made
    exact ⟨symbol, text, listed, same⟩
  refine ⟨compiled, ?_, ?_⟩
  · intro entry among rule member
    obtain ⟨symbol, text, listed, same⟩ := listed entry among
    obtain ⟨_, rules⟩ := Prod.mk.inj same
    have only : rule.toRuleText ∈ [text] := by
      rw [rules]
      exact List.mem_map_of_mem member
    obtain rfl := List.mem_singleton.mp only
    exact (Symbol.shape_body listed).1.2
  · intro entry among c begins
    obtain ⟨symbol, text, listed, same⟩ := listed entry among
    obtain ⟨key, _⟩ := Prod.mk.inj same
    exact Symbol.contains_key listed (key ▸ begins)

end Passes

/-! ## The turtle -/

section Turtle

variable (seed : Option UInt64) (growthAxis : Vec3)

/-- The stock interpretation has three parts. -/
theorem parts_interpretation :
    (interpretation seed growthAxis).parts = #[.trunk, .joint, .leaves] := rfl

/-- The meaning of a symbol in the stock interpretation. -/
theorem command_interpretation (c : Char) :
    (interpretation seed growthAxis).meanings.command c =
      if c = 'L' then .draw 2 else if c = 'J' then .draw 1 else if c = 'D' then .draw 0
      else if c = ']' then .pop else if c = '[' then .push
      else if c = 'Z' then .rotate .z else if c = 'Y' then .rotate .y
      else if c = 'X' then .rotate .x else .ignore := by
  have none : (Interpretation.empty seed growthAxis :
      Interpretation PlantPart).withStandardSymbols.meanings.commands.size = 5 :=
    Interpretation.size_withStandardSymbols seed growthAxis
  have one := Interpretation.size_register_le
    (Interpretation.empty seed growthAxis).withStandardSymbols 'D' PlantPart.trunk
  have two := Interpretation.size_register_le
    ((Interpretation.empty seed growthAxis).withStandardSymbols.register 'D' PlantPart.trunk)
    'J' PlantPart.joint
  have room : 5 + 1 + 1 < Meanings.capacity := by decide
  unfold interpretation interpretationOver Interpretation.addMaterial
  dsimp only [id]
  rw [Interpretation.command_register, Interpretation.command_register,
    Interpretation.command_register, Interpretation.command_withStandardSymbols]
  · rfl
  · omega
  · omega
  · omega

/-- In the stock interpretation square brackets, and no other symbols, save and restore. -/
theorem branchSymbols_interpretation : (interpretation seed growthAxis).BranchSymbols := by
  constructor
  · intro c
    rw [command_interpretation]
    grind
  · intro c
    rw [command_interpretation]
    grind
  · rw [command_interpretation]
    simp
  · rw [command_interpretation]
    simp

/-- The stock interpretation accepts the symbols of the stock tree. -/
theorem accepts_form (symbol : Symbol) :
    (interpretation seed growthAxis).Accepts symbol.form symbol.nodes := by
  have meaning := command_interpretation seed growthAxis symbol.form.symbol
  have drawn (index : Nat) : (interpretation seed growthAxis).parts[index]? =
      #[PlantPart.trunk, .joint, .leaves][index]? := by
    rw [parts_interpretation]
  cases symbol with
  | trunk => exact .draw meaning (drawn 0) (by decide)
  | joint => exact .draw meaning (drawn 1) (by decide)
  | leaves => exact .draw meaning (drawn 2) (by decide)
  | split => exact .ignore meaning
  | xTurn | yTurn => exact .rotate meaning (by decide)
  | opening => exact .push meaning
  | closing => exact .pop meaning

end Turtle

/-! ## Growth -/

/-- The symbols of a sequence that spells a word come as often as they stand in the word. -/
theorem occurrences_of_spelled {sequence : Text} {symbols : List Symbol}
    (spelled : sequence.shape = symbols.map Symbol.form) (symbol : Symbol) :
    sequence.occurrences symbol.form.symbol = symbols.count symbol := by
  have same : (Token.cut sequence).1.map Token.symbol =
      symbols.map fun symbol => symbol.form.symbol := by
    have forms := congrArg (List.map Form.symbol) spelled
    rwa [shape, List.map_map, List.map_map] at forms
  rw [occurrences, same]
  exact List.count_map_of_injective symbols _ Symbol.injective_symbol_form symbol

/-- The stock tree grows in closed form. For any constants, any seed and any numbers drawn, a
derivation of so many passes that gives a sequence gives one of tokens to its end, with these
numbers of symbols. Behind the first pass its turtle has a tree, with this number of nodes,
and finds a saved frame wherever it restores one. -/
theorem growth_of_derive {base : LSystem} (stock : system = .ok base) (constants : Constants)
    (seed : Option UInt64) (fresh : Generator) (count : Nat) {sequence : Text}
    (derived : ({ base with constants, seed }.derive fresh base.start count).2 =
      some (.ok sequence)) :
    (Token.cut sequence).2 = [] ∧
    (sequence.occurrences 'D' = 2 ^ (count + 1) - 1 ∧ sequence.occurrences 'S' = 2 ^ count ∧
      sequence.occurrences 'J' = 2 ^ count - 1 ∧ sequence.occurrences 'L' = 2 ^ (count + 1) - 2 ∧
      sequence.occurrences '[' = 2 ^ (count + 1) - 2 ∧
      sequence.occurrences ']' = 2 ^ (count + 1) - 2) ∧
    (0 < count → ∀ (turtleSeed : Option UInt64) (growthAxis : Vec3),
      (∃ tree, (interpretation turtleSeed growthAxis).tree sequence = .ok tree ∧
        tree.size = 5 * 2 ^ count - 4) ∧
      ∀ turtle position symbol rest,
        (interpretation turtleSeed growthAxis).Reaches sequence turtle position (symbol :: rest) →
          (interpretation turtleSeed growthAxis).meanings.command symbol = .pop →
            turtle.stack ≠ []) := by
  obtain ⟨begins, grammar, compiled, texts⟩ := exists_grammar stock
  have changed : ({ base with constants, seed } : LSystem).grammar.recompile = .ok grammar :=
    compiled
  obtain ⟨after, given⟩ := LSystem.exists_gives_of_derive changed derived
  rw [begins] at given
  have ready := Grammar.compile_of_recompile compiled
  obtain ⟨regular, spelled, numeric⟩ := spells_of_passes texts ready given
  obtain ⟨trunks, joints, leaves, openings, closings⟩ := counts_word count
  have counted := occurrences_of_spelled spelled
  refine ⟨regular.1, ⟨(counted .trunk).trans trunks, (counted .split).trans (count_split_word count),
    (counted .joint).trans joints, (counted .leaves).trans leaves,
    (counted .opening).trans openings, (counted .closing).trans closings⟩, ?_⟩
  intro positive turtleSeed growthAxis
  constructor
  · obtain ⟨tree, grown, size⟩ := Interpretation.exists_tree (accepts_form turtleSeed growthAxis)
      regular.1 (numeric positive) spelled
    refine ⟨tree, grown, ?_⟩
    have powers := Nat.two_pow_pos count
    have twice : 2 ^ (count + 1) = 2 * 2 ^ count := Nat.pow_succ'
    rw [size, sum_nodes, trunks, joints, leaves]
    omega
  · have nested := LSystem.wellNested_of_passes (nested_branches texts ready) shape_start.1.2 given
    have symbols := branchSymbols_interpretation turtleSeed growthAxis
    intro turtle position symbol rest reached meaning
    exact symbols.stack_ne_nil (symbols.matches_of_reaches nested reached) meaning

/-- One pass over the stock tree gives a sequence. -/
theorem isOk_derive :
    system.map (fun base => (base.derive default base.start 1).2.any Except.isOk) = .ok true := by
  unfold system start grammar
  rw [toList_split, String.toList_append]
  decide +kernel

/-- Behind its first pass the stock tree has three trunks, two split points, a joint and two
clusters of leaves. -/
theorem growth_of_derive_once :
    ∃ base sequence, system = .ok base ∧
      (base.derive default base.start 1).2 = some (.ok sequence) ∧
        (sequence.occurrences 'D' = 3 ∧ sequence.occurrences 'S' = 2 ∧
          sequence.occurrences 'J' = 1 ∧ sequence.occurrences 'L' = 2 ∧
          sequence.occurrences '[' = 2 ∧ sequence.occurrences ']' = 2) ∧
          ∃ tree, (interpretation none .unitY).tree sequence = .ok tree ∧ tree.size = 6 := by
  obtain ⟨base, stock, succeeds⟩ := map_eq_ok_iff.mp isOk_derive
  obtain ⟨outcome, derived, ok⟩ := (Option.any_eq_true _ _).mp succeeds
  obtain ⟨sequence, rfl⟩ := exists_of_isOk ok
  obtain ⟨_, counts, grown⟩ := growth_of_derive stock base.constants base.seed default 1 derived
  exact ⟨base, sequence, stock, derived, counts, (grown Nat.one_pos none .unitY).1⟩

end Arbor.StockTree
